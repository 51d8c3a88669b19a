import BoolExpr.Proofs.Evaluation

/-!
What the stacks of a fold hold while it is under way. Each step takes the topmost task off, so that
a bounded number of steps is left, and does not change what comes of the rest. Hence whatever a fold
meets on its way is settled by its outcome: an operator whose turn it is has both values, one value
is left at the end, and the only place to stop before is the first leaf whose name has no value,
even where the other operand would decide.
-/
namespace BoolExpr.Expr

variable {lookup : String → Option Bool} {e : Expr}

def firstUnknown? (lookup : String → Option Bool) (e : Expr) : Option String :=
  e.names.find? fun name => !(lookup name).isSome

theorem firstUnknown?_eq_none_iff :
    e.firstUnknown? lookup = none ↔ ∀ name ∈ e.vars, (lookup name).isSome = true := by
  simp [firstUnknown?, mem_vars, Option.isSome_iff_ne_none]

theorem eval_eq_firstUnknown? (lookup : String → Option Bool) (e : Expr) :
    e.eval lookup =
      match e.firstUnknown? lookup with
      | none => .ok (e.truth fun name => (lookup name).getD false)
      | some name => .error name := by
  induction e with
  | literal value => rfl
  | var name => cases hvalue : lookup name <;> simp [eval, firstUnknown?, names, truth, hvalue]
  | binary op left right ihl ihr =>
    have hfirst : firstUnknown? lookup (.binary op left right) =
        (left.firstUnknown? lookup).or (right.firstUnknown? lookup) := List.find?_append
    rw [eval, ihl, ihr, hfirst, truth_binary]
    cases left.firstUnknown? lookup with
    | some name => rfl
    | none => cases right.firstUnknown? lookup <;> rfl

/-- Evaluation fails at a name of the tree, one without a value. -/
theorem eval_eq_error {name : String} (h : e.eval lookup = .error name) :
    name ∈ e.names ∧ lookup name = none := by
  rw [eval_eq_firstUnknown?] at h
  cases hfirst : e.firstUnknown? lookup with
  | none =>
    rw [hfirst] at h
    cases h
  | some first =>
    rw [hfirst] at h
    obtain rfl := Except.error.inj h
    exact ⟨List.mem_of_find?_eq_some hfirst, by simpa using List.find?_some hfirst⟩

theorem work_eq_firstUnknown? (lookup : String → Option Bool) (e : Expr) :
    work lookup [.visit e] [] =
      match e.firstUnknown? lookup with
      | none => .ok [e.truth fun name => (lookup name).getD false]
      | some name => .error (.unknownName name) := by
  rw [work_visit, eval_eq_firstUnknown?]
  cases e.firstUnknown? lookup with
  | none => simp only [work]
  | some name => rfl

structure FoldState where
  tasks : List Task
  values : List Bool

namespace FoldState

/-- What one round of a fold does. No round is there for a name without a value, and none for an
operator with fewer than two values. -/
inductive Step (lookup : String → Option Bool) : FoldState → FoldState → Prop
  | literal (value : Bool) (tasks : List Task) (values : List Bool) :
      Step lookup ⟨.visit (.literal value) :: tasks, values⟩ ⟨tasks, value :: values⟩
  | var {name : String} {value : Bool} (hvalue : lookup name = some value) (tasks : List Task)
      (values : List Bool) :
      Step lookup ⟨.visit (.var name) :: tasks, values⟩ ⟨tasks, value :: values⟩
  | enter (op : Op) (left right : Expr) (tasks : List Task) (values : List Bool) :
      Step lookup ⟨.visit (.binary op left right) :: tasks, values⟩
        ⟨.visit left :: .visit right :: .join op :: tasks, values⟩
  | join (op : Op) (a b : Bool) (tasks : List Task) (values : List Bool) :
      Step lookup ⟨.join op :: tasks, b :: a :: values⟩ ⟨tasks, op.apply a b :: values⟩

inductive Reached (lookup : String → Option Bool) (e : Expr) : Nat → FoldState → Prop
  | start : Reached lookup e 0 ⟨[.visit e], []⟩
  | next {n : Nat} {s s' : FoldState} (h : Reached lookup e n s) (hstep : Step lookup s s') :
      Reached lookup e (n + 1) s'

variable {n : Nat} {s s' : FoldState}

theorem Step.work_eq (h : Step lookup s s') :
    work lookup s.tasks s.values = work lookup s'.tasks s'.values := by
  cases h with
  | literal value tasks values => rw [work]
  | var hvalue tasks values =>
    rw [work]
    simp only [hvalue]
  | enter op left right tasks values => rw [work]
  | join op a b tasks values => rw [work]

theorem Step.totalCost_eq (h : Step lookup s s') : totalCost s'.tasks + 1 = totalCost s.tasks := by
  cases h <;> simp only [totalCost, Task.cost] <;> omega

/-- A fold that is under way has the outcome that it had from the start. -/
theorem Reached.work_eq (h : Reached lookup e n s) :
    work lookup s.tasks s.values = work lookup [.visit e] [] := by
  induction h with
  | start => rfl
  | next h hstep ih => rw [← hstep.work_eq, ih]

/-- Each round is one of those that the tree takes. -/
theorem Reached.add_totalCost (h : Reached lookup e n s) :
    n + totalCost s.tasks = (Task.visit e).cost := by
  induction h with
  | start => exact Nat.zero_add _
  | next h hstep ih =>
    have hcost := hstep.totalCost_eq
    omega

/-- Without a further round the tasks are done, or the fold fails for the reason at hand. -/
theorem exists_step_or (lookup : String → Option Bool) (s : FoldState) :
    (∃ s', Step lookup s s') ∨ s.tasks = [] ∨
      (∃ name tasks, s.tasks = .visit (.var name) :: tasks ∧
        work lookup s.tasks s.values = .error (.unknownName name)) ∨
      work lookup s.tasks s.values = .error .missingOperand := by
  obtain ⟨tasks, values⟩ := s
  cases tasks with
  | nil => exact Or.inr (Or.inl rfl)
  | cons task tasks =>
    cases task with
    | visit e =>
      cases e with
      | literal value => exact Or.inl ⟨_, .literal value tasks values⟩
      | var name =>
        cases hvalue : lookup name with
        | some value => exact Or.inl ⟨_, .var hvalue tasks values⟩
        | none =>
          refine Or.inr (Or.inr (Or.inl ⟨name, tasks, rfl, ?_⟩))
          simp only [work, hvalue]
      | binary op left right => exact Or.inl ⟨_, .enter op left right tasks values⟩
    | join op =>
      rcases values with _ | ⟨b, _ | ⟨a, values⟩⟩
      · exact Or.inr (Or.inr (Or.inr (by simp only [work])))
      · exact Or.inr (Or.inr (Or.inr (by simp only [work])))
      · exact Or.inl ⟨_, .join op a b tasks values⟩

/-- Every fold comes to a state in which there is no further round. -/
theorem exists_reached_last (lookup : String → Option Bool) (e : Expr) :
    ∃ n s, Reached lookup e n s ∧ ¬∃ s', Step lookup s s' := by
  suffices h : ∀ cost n s, totalCost s.tasks = cost → Reached lookup e n s →
      ∃ n' s', Reached lookup e n' s' ∧ ¬∃ s'', Step lookup s' s'' from
    h _ 0 ⟨[.visit e], []⟩ rfl .start
  intro cost
  induction cost with
  | zero =>
    intro n s hcost h
    refine ⟨n, s, h, fun ⟨s', hstep⟩ => ?_⟩
    have := hstep.totalCost_eq
    omega
  | succ cost ih =>
    intro n s hcost h
    by_cases hlast : ∃ s', Step lookup s s'
    · obtain ⟨s', hstep⟩ := hlast
      have := hstep.totalCost_eq
      exact ih (n + 1) s' (by omega) (h.next hstep)
    · exact ⟨n, s, h, hlast⟩

theorem not_step_of_done (h : s.tasks = []) : ¬∃ s', Step lookup s s' := by
  rintro ⟨s', hstep⟩
  cases hstep <;> cases h

/-- A state without a further round is the end of the fold or its failure. -/
theorem Reached.last (h : Reached lookup e n s) (hlast : ¬∃ s', Step lookup s s') :
    match e.firstUnknown? lookup with
    | none => s = ⟨[], [e.truth fun name => (lookup name).getD false]⟩
    | some name => ∃ tasks, s.tasks = .visit (.var name) :: tasks := by
  have hwork := h.work_eq.trans (work_eq_firstUnknown? lookup e)
  obtain ⟨tasks, values⟩ := s
  rcases exists_step_or lookup ⟨tasks, values⟩ with
    hstep | hdone | ⟨name, rest, htop, hfails⟩ | hfails
  · exact absurd hstep hlast
  · obtain rfl : tasks = [] := hdone
    simp only [work] at hwork
    split at hwork
    · rw [Except.ok.inj hwork]
    · cases hwork
  · rw [hfails] at hwork
    split at hwork
    · cases hwork
    · rw [FoldError.unknownName.inj (Except.error.inj hwork)] at htop
      exact ⟨rest, htop⟩
  · rw [hfails] at hwork
    split at hwork <;> cases hwork

/-- An operator whose turn it is has two values. -/
theorem Reached.two_le_values (h : Reached lookup e n s) {op : Op} {tasks : List Task}
    (htasks : s.tasks = .join op :: tasks) : 2 ≤ s.values.length := by
  by_cases hlast : ∃ s', Step lookup s s'
  · obtain ⟨s', hstep⟩ := hlast
    cases hstep with
    | join op' a b tasks' values => simp
    | _ => cases htasks
  · have hend := h.last hlast
    split at hend
    · rw [hend] at htasks
      cases htasks
    · obtain ⟨tasks', htasks'⟩ := hend
      cases htasks.symm.trans htasks'

/-- One value is left at the end. -/
theorem Reached.values_of_done (h : Reached lookup e n s) (hdone : s.tasks = []) :
    s.values = [e.truth fun name => (lookup name).getD false] := by
  have hend := h.last (not_step_of_done hdone)
  split at hend
  · rw [hend]
  · obtain ⟨tasks, htasks⟩ := hend
    cases hdone.symm.trans htasks

end FoldState

open FoldState

/-- The fold with stacks is evaluation by recursion on the tree, failure included. Under a map with
values for all variables it ends, after at most as many rounds as the tree takes, with the value of
the tree as the only one on the stack; under any other map it fails at the first leaf, from left to
right, whose name has no value, no matter whether the value of that leaf could make a difference. On
the way there are always two values for an operator whose turn it is. -/
theorem fold_outcome (e : Expr) (b : Bindings) :
    let value := e.truth fun name => (b.find? name).getD false
    ((∀ name ∈ e.vars, b.contains name = true) →
      e.fold b.find? = .ok value ∧ ∃ n, Reached b.find? e n ⟨[], [value]⟩) ∧
    (∀ name, e.firstUnknown? b.find? = some name →
      e.fold b.find? = .error (.unknownName name) ∧
        ∃ n tasks values, Reached b.find? e n ⟨.visit (.var name) :: tasks, values⟩) ∧
    ∀ n s, Reached b.find? e n s →
      n ≤ (Task.visit e).cost ∧
      (∀ op tasks, s.tasks = .join op :: tasks → 2 ≤ s.values.length) ∧
      (s.tasks = [] → s.values = [value]) := by
  intro value
  have hfold := fold_eq_eval b.find? e
  rw [eval_eq_firstUnknown?] at hfold
  obtain ⟨n, s, hreached, hlast⟩ := exists_reached_last b.find? e
  have hend := hreached.last hlast
  refine ⟨fun hbound => ?_, fun name hname => ?_, fun n s h => ?_⟩
  · rw [firstUnknown?_eq_none_iff.mpr hbound] at hfold hend
    exact ⟨hfold, n, hend ▸ hreached⟩
  · rw [hname] at hfold hend
    obtain ⟨tasks, htasks⟩ := hend
    exact ⟨hfold, n, tasks, s.values, htasks ▸ hreached⟩
  · have hcost := h.add_totalCost
    exact ⟨by omega, fun op tasks => h.two_le_values, h.values_of_done⟩

end BoolExpr.Expr
