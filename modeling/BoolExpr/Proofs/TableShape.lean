import Mathlib.Logic.ExistsUnique
import Mathlib.Tactic.ByContra
import Mathlib.Tactic.SplitIfs
import BoolExpr.Proofs.StackWalks

/-!
Which tables are made from trees. An operator refers to the next row on the left, and on the right
to the row after the tree that begins there; and every row but the first is referred to from one
place, a row and a side of it. Any table of this shape is that of the tree that it decodes to.
-/
namespace BoolExpr

namespace Node

def Refers (rows : List Node) (i : Nat) (side : Side) (j : Nat) : Prop :=
  ∃ row, rows[i]? = some row ∧ row.reference? side = some j

structure Shaped (rows : List Node) : Prop where
  nonempty : 0 < rows.length
  operands : ∀ i op left right, rows[i]? = some (.binary op left right) →
    left = i + 1 ∧ left < rows.length ∧ right < rows.length ∧
      ∃ l, decodeAt? rows left = some l ∧ right = i + 1 + l.size
  referenced : ∀ j, 0 < j → j < rows.length →
    ∃! place : Nat × Side, Refers rows place.1 place.2 j

/-- The places that refer to row `j`, in rows of which the first is row `start`. -/
def placesFrom (start j : Nat) : List Node → List (Nat × Side)
  | [] => []
  | row :: rest =>
    ([Side.left, Side.right].filter fun side => row.reference? side = some j).map (start, ·) ++
      placesFrom (start + 1) j rest

variable {rows : List Node} {row : Node} {op : Op} {i j k start left right : Nat} {side : Side}

theorem refers_cons_zero : Refers (row :: rows) 0 side j ↔ row.reference? side = some j := by
  simp [Refers]

theorem refers_cons_succ : Refers (row :: rows) (i + 1) side j ↔ Refers rows i side j := by
  simp [Refers]

theorem exists_binary_of_refers (h : Refers rows i side j) :
    ∃ op left right, rows[i]? = some (.binary op left right) ∧ (j = left ∨ j = right) := by
  obtain ⟨row, hrow, hreference⟩ := h
  cases row with
  | literal value => cases side <;> cases hreference
  | var name => cases side <;> cases hreference
  | binary op left right =>
    refine ⟨op, left, right, hrow, ?_⟩
    cases side with
    | left => exact Or.inl (Option.some.inj hreference).symm
    | right => exact Or.inr (Option.some.inj hreference).symm

theorem mem_placesFrom :
    (k, side) ∈ placesFrom start j rows ↔ ∃ i, k = start + i ∧ Refers rows i side j := by
  induction rows generalizing start with
  | nil => simp [placesFrom, Refers]
  | cons row rest ih =>
    have hsides : side ∈ [Side.left, Side.right] := by cases side <;> simp
    rw [placesFrom, List.mem_append, List.mem_map, ih]
    constructor
    · rintro (⟨side', hside, hplace⟩ | ⟨i, rfl, hrefers⟩)
      · cases hplace
        exact ⟨0, rfl, refers_cons_zero.mpr (by simpa using (List.mem_filter.mp hside).2)⟩
      · exact ⟨i + 1, by omega, refers_cons_succ.mpr hrefers⟩
    · rintro ⟨i, rfl, hrefers⟩
      cases i with
      | zero =>
        have hreference := refers_cons_zero.mp hrefers
        exact Or.inl ⟨side, List.mem_filter.mpr ⟨hsides, by simpa using hreference⟩, rfl⟩
      | succ i => exact Or.inr ⟨i, by omega, refers_cons_succ.mp hrefers⟩

theorem placesFrom_append (start j : Nat) (xs ys : List Node) :
    placesFrom start j (xs ++ ys) =
      placesFrom start j xs ++ placesFrom (start + xs.length) j ys := by
  induction xs generalizing start with
  | nil => rfl
  | cons x rest ih =>
    rw [List.cons_append, placesFrom, ih, placesFrom, List.length_cons, List.append_assoc,
      Nat.add_assoc, Nat.add_comm 1]

theorem length_placesFrom_binary (start j : Nat) (op : Op) (left right : Nat) (rest : List Node) :
    (placesFrom start j (.binary op left right :: rest)).length =
      (if left = j then 1 else 0) + (if right = j then 1 else 0) +
        (placesFrom (start + 1) j rest).length := by
  rw [placesFrom, List.length_append, List.length_map]
  by_cases hleft : left = j <;> by_cases hright : right = j <;>
    simp [reference?, hleft, hright, List.filter]

/-- Among the rows of a tree one place refers to each row but the first, and none to any other. -/
theorem length_placesFrom_rowsFrom (k start j : Nat) (e : Expr) :
    (placesFrom k j (e.rowsFrom start)).length =
      if start < j ∧ j < start + e.size then 1 else 0 := by
  induction e generalizing k start with
  | literal value =>
    have hnone : ¬(start < j ∧ j < start + 1) := by omega
    exact (if_neg hnone).symm
  | var name =>
    have hnone : ¬(start < j ∧ j < start + 1) := by omega
    exact (if_neg hnone).symm
  | binary op left right ihl ihr =>
    have hleft := left.size_pos
    have hright := right.size_pos
    rw [Expr.rowsFrom, length_placesFrom_binary, placesFrom_append, List.length_append, ihl, ihr,
      Expr.size]
    split_ifs <;> omega

/-- Every row of a table of this shape begins the rows of the tree below it. -/
theorem Shaped.exists_rowsFrom (h : Shaped rows) (hi : i < rows.length) :
    ∃ e, decodeAt? rows i = some e ∧ e.rowsFrom i <+: rows.drop i := by
  -- references lead onwards in the table, so the rows that are left get fewer
  induction hleft : rows.length - i using Nat.strongRecOn generalizing i with
  | ind n ih =>
    have hdrop : rows.drop i = rows[i] :: rows.drop (i + 1) := List.drop_eq_getElem_cons hi
    have hrow : rows[i]? = some rows[i] := List.getElem?_eq_getElem hi
    cases hnode : rows[i] with
    | literal value =>
      rw [hnode] at hdrop hrow
      exact ⟨.literal value, decodeAt?_literal hrow, rows.drop (i + 1), hdrop.symm⟩
    | var name =>
      rw [hnode] at hdrop hrow
      exact ⟨.var name, decodeAt?_var hrow, rows.drop (i + 1), hdrop.symm⟩
    | binary op left right =>
      rw [hnode] at hdrop hrow
      obtain ⟨rfl, hltl, hltr, l, hl, rfl⟩ := h.operands i op left right hrow
      obtain ⟨l', hl', more, hmore⟩ := ih _ (by omega) hltl rfl
      obtain rfl : l = l' := Option.some.inj (hl.symm.trans hl')
      have hpos := l.size_pos
      obtain ⟨r, hr, back, hback⟩ := ih _ (by omega) hltr rfl
      have hrest : rows.drop (i + 1 + l.size) = more := by
        rw [← List.drop_drop, ← hmore, ← Expr.length_rowsFrom (i + 1) l, List.drop_left]
      refine ⟨.binary op l r, ?_, back, ?_⟩
      · rw [decodeAt?_binary hrow (by omega) (by omega), hl, hr]
        rfl
      · rw [hdrop, ← hmore, ← hrest, ← hback, Expr.rowsFrom]
        simp only [List.cons_append, List.append_assoc]

theorem shaped_flatten (e : Expr) : Shaped e.flatten where
  nonempty := by
    rw [Expr.length_flatten]
    exact e.size_pos
  operands := by
    intro i op left right h
    rw [Expr.getElem?_flatten, Option.map_eq_some_iff] at h
    obtain ⟨sub, hsub, hrow⟩ := h
    cases sub with
    | literal value => cases hrow
    | var name => cases hrow
    | binary op' l r =>
      obtain ⟨rfl, rfl, rfl⟩ := Node.binary.inj hrow
      obtain ⟨hl, hr⟩ := Expr.getElem?_preorder_operands hsub
      have hltl := (List.getElem?_eq_some_iff.mp hl).1
      have hltr := (List.getElem?_eq_some_iff.mp hr).1
      rw [Expr.length_preorder, ← e.length_flatten] at hltl hltr
      exact ⟨rfl, hltl, hltr, l, decodeAt?_flatten hl, rfl⟩
  referenced := by
    intro j hpos hj
    rw [Expr.length_flatten] at hj
    have hlength := length_placesFrom_rowsFrom 0 0 j e
    rw [if_pos ⟨hpos, by omega⟩] at hlength
    obtain ⟨place, hplace⟩ := List.length_eq_one_iff.mp hlength
    have hmem : ∀ i side, Refers e.flatten i side j ↔ (i, side) = place := by
      intro i side
      rw [← List.mem_singleton, ← hplace, mem_placesFrom]
      simp [Expr.flatten]
    exact ⟨place, (hmem _ _).mpr rfl, fun other hother => (hmem _ _).mp hother⟩

/-- A table of this shape holds the rows of the tree that it decodes to, and no others. -/
theorem Shaped.exists_flatten_eq (h : Shaped rows) :
    ∃ e, decode? rows = some e ∧ e.flatten = rows := by
  obtain ⟨e, hdecode, more, hrows⟩ := h.exists_rowsFrom h.nonempty
  rw [List.drop_zero] at hrows
  suffices hmore : more = [] by
    rw [hmore, List.append_nil] at hrows
    exact ⟨e, hdecode, hrows⟩
  by_contra hne
  -- a row behind those of the tree is referred to by one of them, which refer to each other only
  have hlength : e.size < rows.length := by
    have hpos := List.length_pos_iff.mpr hne
    rw [← hrows, List.length_append, Expr.length_rowsFrom]
    omega
  obtain ⟨⟨i, side⟩, hrefers, -⟩ := h.referenced e.size e.size_pos hlength
  obtain ⟨op, left, right, hrow, hreference⟩ := exists_binary_of_refers hrefers
  obtain ⟨hleft, -, -, l, -, hright⟩ := h.operands i op left right hrow
  have hi : i < e.flatten.length := by
    rw [e.length_flatten]
    omega
  have hown : e.flatten[i]? = some (.binary op left right) := by
    rw [← hrow, ← hrows]
    exact (List.getElem?_append_left hi).symm
  obtain ⟨-, hltl, hltr, -⟩ := (shaped_flatten e).operands i op left right hown
  rw [e.length_flatten] at hltl hltr
  omega

theorem flatten_injective : Function.Injective Expr.flatten := by
  intro e f h
  have hdecode : some e = some f := by rw [← decode?_flatten, ← decode?_flatten, h]
  exact Option.some.inj hdecode

/-- Flat tables are a faithful encoding of trees. The walk with a stack makes, without ever filling
in what is not there or leaving anything out, the table of one row for each subtree in preorder; the
table has the shape of such tables, and decoding its first row ends with the tree, so different
trees have different tables. And every table of that shape is that of the tree that it decodes to.
-/
theorem flatten_faithful :
    (∀ e : Expr,
      e.flattenByStack = some e.flatten ∧
      e.preorder.length = e.size ∧ e.preorder.head? = some e ∧
      e.flatten = e.preorder.mapIdx (fun i sub => sub.row i) ∧
      Shaped e.flatten ∧ decode? e.flatten = some e) ∧
    Function.Injective Expr.flatten ∧
    ∀ rows, Shaped rows → ∃ e, decode? rows = some e ∧ e.flatten = rows := by
  refine ⟨fun e => ?_, flatten_injective, fun rows h => h.exists_flatten_eq⟩
  exact ⟨e.flattenByStack_eq, e.length_preorder, e.head?_preorder, e.flatten_eq_mapIdx,
    shaped_flatten e, decode?_flatten e⟩

end Node

end BoolExpr
