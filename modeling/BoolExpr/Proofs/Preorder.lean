import BoolExpr.NodeTable

/-!
Rows and the trees below them. Each row of the table of a tree stands for the subtree that comes at
the same place in preorder, and an operator refers to the places of its operands. So what is found
below a row by following references is that subtree, and below the first row it is the whole tree.
-/
namespace BoolExpr

namespace Expr

/-- All subtrees: a tree, then those of its left operand, then those of its right one. -/
def preorder : Expr → List Expr
  | .literal value => [.literal value]
  | .var name => [.var name]
  | .binary op left right => .binary op left right :: (left.preorder ++ right.preorder)

def row (i : Nat) : Expr → Node
  | .literal value => .literal value
  | .var name => .var name
  | .binary op left _ => .binary op (i + 1) (i + 1 + left.size)

theorem length_preorder (e : Expr) : e.preorder.length = e.size := by
  induction e with
  | literal value => rfl
  | var name => rfl
  | binary op left right ihl ihr =>
    rw [preorder, List.length_cons, List.length_append, ihl, ihr, size]
    omega

theorem head?_preorder (e : Expr) : e.preorder.head? = some e := by
  cases e <;> rfl

theorem getElem?_preorder_zero (e : Expr) : e.preorder[0]? = some e := by
  rw [← List.head?_eq_getElem?, head?_preorder]

/-- The names of a subtree are names of the tree. -/
theorem names_subset_of_mem_preorder {e sub : Expr} (h : sub ∈ e.preorder) :
    ∀ name ∈ sub.names, name ∈ e.names := by
  intro name hname
  induction e with
  | literal value =>
    obtain rfl : sub = .literal value := by simpa [preorder] using h
    exact hname
  | var found =>
    obtain rfl : sub = .var found := by simpa [preorder] using h
    exact hname
  | binary op left right ihl ihr =>
    rw [preorder, List.mem_cons, List.mem_append] at h
    rcases h with rfl | hleft | hright
    · exact hname
    · exact List.mem_append_left _ (ihl hleft)
    · exact List.mem_append_right _ (ihr hright)

/-- The rows are those of the subtrees in preorder. -/
theorem rowsFrom_eq_mapIdx (start : Nat) (e : Expr) :
    e.rowsFrom start = e.preorder.mapIdx fun i sub => sub.row (start + i) := by
  induction e generalizing start with
  | literal value => rfl
  | var name => rfl
  | binary op left right ihl ihr =>
    have hleft : left.rowsFrom (start + 1) =
        left.preorder.mapIdx fun i sub => sub.row (start + (i + 1)) := by
      simp only [ihl, Nat.add_assoc, Nat.add_comm 1]
    have hright : right.rowsFrom (start + 1 + left.size) =
        right.preorder.mapIdx fun i sub => sub.row (start + (i + left.size + 1)) := by
      rw [ihr]
      congr 1
      funext i sub
      congr 1
      omega
    rw [rowsFrom, preorder, List.mapIdx_cons, List.mapIdx_append, length_preorder, hleft, hright]
    rfl

theorem flatten_eq_mapIdx (e : Expr) : e.flatten = e.preorder.mapIdx fun i sub => sub.row i := by
  rw [flatten, rowsFrom_eq_mapIdx]
  simp only [Nat.zero_add]

theorem getElem?_flatten (e : Expr) (i : Nat) :
    e.flatten[i]? = e.preorder[i]?.map fun sub => sub.row i := by
  rw [flatten_eq_mapIdx, List.getElem?_mapIdx]

theorem length_flatten (e : Expr) : e.flatten.length = e.size := e.length_rowsFrom 0

/-- What is below a subtree comes right after it in preorder. -/
theorem exists_preorder_eq_append {e sub : Expr} {i : Nat} (h : e.preorder[i]? = some sub) :
    ∃ front back, e.preorder = front ++ (sub.preorder ++ back) ∧ front.length = i := by
  induction e generalizing i with
  | literal value =>
    obtain ⟨rfl, rfl⟩ : i = 0 ∧ .literal value = sub := by
      cases i <;> simp_all [preorder]
    exact ⟨[], [], rfl, rfl⟩
  | var name =>
    obtain ⟨rfl, rfl⟩ : i = 0 ∧ .var name = sub := by
      cases i <;> simp_all [preorder]
    exact ⟨[], [], rfl, rfl⟩
  | binary op left right ihl ihr =>
    cases i with
    | zero =>
      obtain rfl : .binary op left right = sub := Option.some.inj h
      exact ⟨[], [], by simp, rfl⟩
    | succ i =>
      rw [preorder, List.getElem?_cons_succ] at h
      by_cases hi : i < left.preorder.length
      · rw [List.getElem?_append_left hi] at h
        obtain ⟨front, back, hleft, hfront⟩ := ihl h
        refine ⟨.binary op left right :: front, back ++ right.preorder, ?_, ?_⟩
        · rw [preorder, hleft]
          simp
        · rw [List.length_cons, hfront]
      · rw [List.getElem?_append_right (by omega)] at h
        obtain ⟨front, back, hright, hfront⟩ := ihr h
        refine ⟨.binary op left right :: (left.preorder ++ front), back, ?_, ?_⟩
        · rw [preorder, hright]
          simp
        · rw [List.length_cons, List.length_append, hfront]
          omega

/-- Where in preorder the operands of a subtree are. -/
theorem getElem?_preorder_operands {e l r : Expr} {op : Op} {i : Nat}
    (h : e.preorder[i]? = some (.binary op l r)) :
    e.preorder[i + 1]? = some l ∧ e.preorder[i + 1 + l.size]? = some r := by
  obtain ⟨front, back, hsplit, rfl⟩ := exists_preorder_eq_append h
  have hleft : (l.preorder ++ (r.preorder ++ back))[0]? = some l := by
    rw [List.getElem?_append_left (by rw [length_preorder]; exact l.size_pos),
      getElem?_preorder_zero]
  have hright : (l.preorder ++ (r.preorder ++ back))[l.size]? = some r := by
    rw [List.getElem?_append_right (Nat.le_of_eq l.length_preorder), length_preorder, Nat.sub_self,
      List.getElem?_append_left (by rw [length_preorder]; exact r.size_pos),
      getElem?_preorder_zero]
  have hbehind : ∀ k, e.preorder[front.length + 1 + k]? =
      (l.preorder ++ (r.preorder ++ back))[k]? := by
    intro k
    rw [hsplit, List.getElem?_append_right (by omega), preorder, Nat.add_assoc,
      Nat.add_sub_cancel_left, Nat.add_comm 1, List.cons_append, List.getElem?_cons_succ,
      List.append_assoc]
  exact ⟨(hbehind 0).trans hleft, (hbehind l.size).trans hright⟩

/-- The row of an operator, and where the rows of its operands are. -/
theorem getElem?_flatten_operands {e l r : Expr} {op : Op} {i : Nat}
    (h : e.preorder[i]? = some (.binary op l r)) :
    e.flatten[i]? = some (.binary op (i + 1) (i + 1 + l.size)) ∧
      e.preorder[i + 1]? = some l ∧ e.preorder[i + 1 + l.size]? = some r := by
  refine ⟨?_, getElem?_preorder_operands h⟩
  rw [getElem?_flatten, h]
  rfl

end Expr

inductive Side where
  | left
  | right
deriving DecidableEq

namespace Node

def reference? : Node → Side → Option Nat
  | .binary _ left _, .left => some left
  | .binary _ _ right, .right => some right
  | _, _ => none

variable {rows : List Node} {i : Nat}

theorem decodeAt?_literal {value : Bool} (h : rows[i]? = some (.literal value)) :
    decodeAt? rows i = some (.literal value) := by
  obtain ⟨hi, hrow⟩ := List.getElem?_eq_some_iff.mp h
  rw [decodeAt?, dif_pos hi]
  simp only [hrow]

theorem decodeAt?_var {name : String} (h : rows[i]? = some (.var name)) :
    decodeAt? rows i = some (.var name) := by
  obtain ⟨hi, hrow⟩ := List.getElem?_eq_some_iff.mp h
  rw [decodeAt?, dif_pos hi]
  simp only [hrow]

theorem decodeAt?_binary {op : Op} {left right : Nat}
    (h : rows[i]? = some (.binary op left right)) (hleft : i < left) (hright : i < right) :
    decodeAt? rows i = (do
      let l ← decodeAt? rows left
      let r ← decodeAt? rows right
      return .binary op l r) := by
  obtain ⟨hi, hrow⟩ := List.getElem?_eq_some_iff.mp h
  rw [decodeAt?, dif_pos hi]
  simp only [hrow]
  rw [if_pos ⟨hleft, hright⟩]

/-- The tree below a row of a table is the subtree at its place in preorder. -/
theorem decodeAt?_flatten {e sub : Expr} (h : e.preorder[i]? = some sub) :
    decodeAt? e.flatten i = some sub := by
  induction sub generalizing i with
  | literal value => exact decodeAt?_literal (by rw [Expr.getElem?_flatten, h]; rfl)
  | var name => exact decodeAt?_var (by rw [Expr.getElem?_flatten, h]; rfl)
  | binary op left right ihl ihr =>
    obtain ⟨hrow, hleft, hright⟩ := Expr.getElem?_flatten_operands h
    rw [decodeAt?_binary hrow (by omega) (by omega), ihl hleft, ihr hright]
    rfl

theorem decode?_flatten (e : Expr) : decode? e.flatten = some e :=
  decodeAt?_flatten e.getElem?_preorder_zero

end Node

end BoolExpr
