import Mathlib.Data.List.Basic
import BoolExpr.Proofs.FoldStates
import BoolExpr.Proofs.Preorder
import BoolExpr.Proofs.StackWalks

/-!
The value of a tree from its table alone. The rows are read from the last to the first, and what a
row comes to is noted under its number; an operator takes what is noted under its two references. As
references lead onwards in the table, both operands have been read by then, and what is noted under
a number is the value of the subtree that has that place in preorder.
-/
namespace BoolExpr

namespace Node

inductive RowError where
  | unknownName (name : String)
  | notRead (row : Nat)
deriving DecidableEq

def noted (values : List (Nat × Bool)) (row : Nat) : Except RowError Bool :=
  match values.lookup row with
  | some value => .ok value
  | none => .error (.notRead row)

def valueAmong (lookup : String → Option Bool) (values : List (Nat × Bool)) :
    Node → Except RowError Bool
  | .literal value => .ok value
  | .var name =>
    match lookup name with
    | some value => .ok value
    | none => .error (.unknownName name)
  | .binary op left right => do
    let a ← noted values left
    let b ← noted values right
    return match op with
      | .and => a && b
      | .or => a || b

/-- Reads the rows of which the first is row `start`, the last one first, and notes their values. -/
def readBack (lookup : String → Option Bool) :
    (start : Nat) → List Node → Except RowError (List (Nat × Bool))
  | _, [] => .ok []
  | start, row :: behind => do
    let values ← readBack lookup (start + 1) behind
    let value ← row.valueAmong lookup values
    return (start, value) :: values

/-- The values noted when the rows of a tree have been read back to row `start`: for each row from
there on the value of its subtree, and nothing for the rows in front. -/
structure NotesFrom (lookup : String → Option Bool) (e : Expr) (start : Nat)
    (values : List (Nat × Bool)) : Prop where
  rows_eq : values.map Prod.fst = List.range' start (e.size - start)
  noted_eq : ∀ i sub, start ≤ i → e.preorder[i]? = some sub →
    ∃ value, noted values i = .ok value ∧ sub.eval lookup = .ok value

variable {lookup : String → Option Bool} {e sub : Expr} {values : List (Nat × Bool)} {start : Nat}

theorem noted_eq_ok {row : Nat} {value : Bool} :
    noted values row = .ok value ↔ values.lookup row = some value := by
  unfold noted
  cases values.lookup row <;> simp

theorem readBack_cons {row : Node} {behind : List Node}
    (h : readBack lookup (start + 1) behind = .ok values) :
    readBack lookup start (row :: behind) =
      (row.valueAmong lookup values).map fun value => (start, value) :: values := by
  rw [readBack, h]
  show (row.valueAmong lookup values >>= fun value => .ok ((start, value) :: values)) = _
  cases row.valueAmong lookup values <;> rfl

/-- When the rows behind it have been read, a row comes to the value of its subtree. -/
theorem NotesFrom.valueAmong_row (h : NotesFrom lookup e (start + 1) values)
    (hsub : e.preorder[start]? = some sub) :
    (sub.row start).valueAmong lookup values = (sub.eval lookup).mapError .unknownName := by
  cases sub with
  | literal value => rfl
  | var name =>
    rw [Expr.row, valueAmong, Expr.eval]
    cases lookup name <;> rfl
  | binary op left right =>
    obtain ⟨hleft, hright⟩ := Expr.getElem?_preorder_operands hsub
    obtain ⟨a, hnoteda, ha⟩ := h.noted_eq _ _ (by omega) hleft
    obtain ⟨b, hnotedb, hb⟩ := h.noted_eq _ _ (by omega) hright
    rw [Expr.row, valueAmong, hnoteda, hnotedb, Expr.eval, ha, hb]
    cases op with
    | and => rfl
    | or => rfl

/-- Noting one row more. -/
theorem NotesFrom.cons (h : NotesFrom lookup e (start + 1) values)
    (hsub : e.preorder[start]? = some sub) {value : Bool} (hvalue : sub.eval lookup = .ok value) :
    NotesFrom lookup e start ((start, value) :: values) where
  rows_eq := by
    have hinside := (List.getElem?_eq_some_iff.mp hsub).1
    rw [Expr.length_preorder] at hinside
    have hmore : e.size - start = e.size - (start + 1) + 1 := by omega
    rw [List.map_cons, h.rows_eq, hmore, List.range'_succ]
  noted_eq := by
    intro i other hi hother
    rcases Nat.eq_or_lt_of_le hi with rfl | hlt
    · obtain rfl : sub = other := Option.some.inj (hsub.symm.trans hother)
      exact ⟨value, noted_eq_ok.mpr (by simp), hvalue⟩
    · obtain ⟨value', hnoted, heval⟩ := h.noted_eq i other hlt hother
      have hne : (i == start) = false := beq_eq_false_iff_ne.mpr (by omega)
      refine ⟨value', noted_eq_ok.mpr ?_, heval⟩
      rw [List.lookup_cons, hne]
      exact noted_eq_ok.mp hnoted

/-- Reading back the rows of a tree fails for no other reason than that a name has no value. -/
theorem readBack_outcome (lookup : String → Option Bool) (e : Expr) (start : Nat) :
    (∃ values, readBack lookup start (e.flatten.drop start) = .ok values ∧
      NotesFrom lookup e start values) ∨
    ∃ name ∈ e.names, lookup name = none ∧
      readBack lookup start (e.flatten.drop start) = .error (.unknownName name) := by
  -- from the last row to the first, so on the rows that are still in front of it
  induction hrows : e.flatten.drop start generalizing start with
  | nil =>
    rw [List.drop_eq_nil_iff, Expr.length_flatten] at hrows
    refine Or.inl ⟨[], rfl, ?_, ?_⟩
    · rw [Nat.sub_eq_zero_of_le hrows]
      rfl
    · intro i sub hi hsub
      have hinside := (List.getElem?_eq_some_iff.mp hsub).1
      rw [Expr.length_preorder] at hinside
      omega
  | cons row behind ih =>
    have hrow : e.flatten[start]? = some row := by
      rw [← List.head?_drop, hrows]
      rfl
    have hbehind : e.flatten.drop (start + 1) = behind := by
      rw [← List.tail_drop, hrows]
      rfl
    rw [Expr.getElem?_flatten, Option.map_eq_some_iff] at hrow
    obtain ⟨sub, hsub, rfl⟩ := hrow
    rcases ih (start + 1) hbehind with ⟨values, hread, hnotes⟩ | ⟨name, hname, hnone, hread⟩
    · have hvalue := hnotes.valueAmong_row hsub
      cases heval : sub.eval lookup with
      | ok value =>
        rw [heval] at hvalue
        refine Or.inl ⟨(start, value) :: values, ?_, hnotes.cons hsub heval⟩
        rw [readBack_cons hread, hvalue]
        rfl
      | error name =>
        rw [heval] at hvalue
        obtain ⟨hname, hnone⟩ := Expr.eval_eq_error heval
        have hleaf := Expr.names_subset_of_mem_preorder (List.mem_of_getElem? hsub) name hname
        refine Or.inr ⟨name, hleaf, hnone, ?_⟩
        rw [readBack_cons hread, hvalue]
        rfl
    · refine Or.inr ⟨name, hname, hnone, ?_⟩
      rw [readBack, hread]
      rfl

end Node

namespace Expr

/-- What evaluation by recursion finds in a map is what the fold and the engine find. -/
theorem fold_and_evaluate_of_eval {e : Expr} {b : Bindings} {value : Bool}
    (h : e.eval b.find? = .ok value) : e.fold b.find? = .ok value ∧ e.evaluate b = .ok value := by
  constructor
  · rw [fold_eq_eval, h]
    rfl
  · rw [eval_eq_firstUnknown?] at h
    cases hfirst : e.firstUnknown? b.find? with
    | none =>
      rw [hfirst] at h
      rw [evaluate_of_contains (firstUnknown?_eq_none_iff.mp hfirst)]
      exact congrArg Except.ok (Except.ok.inj h)
    | some name =>
      rw [hfirst] at h
      cases h

/-- A table has a value without its tree. Under values for all variables of a tree, reading the rows
of its table from the last to the first never asks for a row that is still to be read, and ends with
one value for each row; row 0 has the value that the fold finds for the tree, which is the engine's,
and each row has the one that it finds for the subtree at the place of the row in preorder. Under
other values, what reading fails for is a name that has none. -/
theorem readBack_flatten (e : Expr) (b : Bindings) :
    e.flattenByStack = some e.flatten ∧
    (∀ row, Node.readBack b.find? 0 e.flatten ≠ .error (.notRead row)) ∧
    ((∀ name ∈ e.vars, b.contains name = true) →
      ∃ values, Node.readBack b.find? 0 e.flatten = .ok values ∧
        values.map Prod.fst = List.range e.flatten.length ∧
        (∃ value, values.lookup 0 = some value ∧ e.fold b.find? = .ok value ∧
          e.evaluate b = .ok value) ∧
        ∀ i sub, e.preorder[i]? = some sub →
          ∃ value, values.lookup i = some value ∧ sub.fold b.find? = .ok value ∧
            sub.evaluate b = .ok value) ∧
    ∀ failure, Node.readBack b.find? 0 e.flatten = .error failure →
      ∃ name ∈ e.vars, b.contains name = false ∧ failure = .unknownName name := by
  have houtcome := Node.readBack_outcome b.find? e 0
  rw [List.drop_zero] at houtcome
  refine ⟨e.flattenByStack_eq, ?_, ?_, ?_⟩
  · intro row hread
    rcases houtcome with ⟨values, hok, -⟩ | ⟨name, -, -, herror⟩
    · cases hok.symm.trans hread
    · cases herror.symm.trans hread
  · intro hall
    rcases houtcome with ⟨values, hok, hnotes⟩ | ⟨name, hname, hnone, -⟩
    · have hrow : ∀ i sub, e.preorder[i]? = some sub →
          ∃ value, values.lookup i = some value ∧ sub.fold b.find? = .ok value ∧
            sub.evaluate b = .ok value := by
        intro i sub hsub
        obtain ⟨value, hnoted, heval⟩ := hnotes.noted_eq i sub (Nat.zero_le i) hsub
        exact ⟨value, Node.noted_eq_ok.mp hnoted, fold_and_evaluate_of_eval heval⟩
      refine ⟨values, hok, ?_, hrow 0 e e.getElem?_preorder_zero, hrow⟩
      rw [hnotes.rows_eq, length_flatten, Nat.sub_zero, List.range_eq_range']
    · have hfound := hall name (mem_vars.mpr hname)
      rw [Bindings.contains, hnone] at hfound
      cases hfound
  · intro failure hread
    rcases houtcome with ⟨values, hok, -⟩ | ⟨name, hname, hnone, herror⟩
    · cases hok.symm.trans hread
    · refine ⟨name, mem_vars.mpr hname, ?_, Except.error.inj (hread.symm.trans herror)⟩
      rw [Bindings.contains, hnone]
      rfl

example :
    Node.readBack (Bindings.ofList [("x", true)]).find? 0
        (binary .or (.literal false) (.binary .and (.literal true) (.var "x"))).flatten =
      .ok [(0, true), (1, false), (2, true), (3, true), (4, true)] := by
  decide

end Expr

end BoolExpr
