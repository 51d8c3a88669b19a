import BoolExpr.Bindings
import BoolExpr.Expr

/-!
The value of an expression. The fold walks the tree with a stack of tasks and a stack of values, so
that a tree may be as deep as it likes; both operands of an operator are visited, the left one
first. Its outcome is that of evaluation by recursion on the tree, so it stops at the first name
without a value and never lacks an operand.
-/
namespace BoolExpr.Expr

inductive FoldError where
  | unknownName (name : String)
  | missingOperand
deriving DecidableEq

/-- Evaluation by recursion on the tree; the failure is the first name without a value. -/
def eval (lookup : String → Option Bool) : Expr → Except String Bool
  | .literal value => .ok value
  | .var name =>
    match lookup name with
    | some value => .ok value
    | none => .error name
  | .binary op left right => do
    let a ← left.eval lookup
    let b ← right.eval lookup
    return op.apply a b

inductive Task where
  | visit (e : Expr)
  | join (op : Op)

def Task.cost : Task → Nat
  | .visit (.literal _) => 1
  | .visit (.var _) => 1
  | .visit (.binary _ left right) => 2 + (Task.visit left).cost + (Task.visit right).cost
  | .join _ => 1

def totalCost : List Task → Nat
  | [] => 0
  | task :: tasks => task.cost + totalCost tasks

/-- Works off the tasks, topmost first, and returns the values that are left. -/
def work (lookup : String → Option Bool) : List Task → List Bool → Except FoldError (List Bool)
  | [], values => .ok values
  | .visit (.literal value) :: tasks, values => work lookup tasks (value :: values)
  | .visit (.var name) :: tasks, values =>
    match lookup name with
    | some value => work lookup tasks (value :: values)
    | none => .error (.unknownName name)
  | .visit (.binary op left right) :: tasks, values =>
    work lookup (.visit left :: .visit right :: .join op :: tasks) values
  | .join op :: tasks, b :: a :: values => work lookup tasks (op.apply a b :: values)
  | .join _ :: _, _ => .error .missingOperand
termination_by tasks => totalCost tasks
decreasing_by
  all_goals
    simp only [totalCost, Task.cost]
    omega

def fold (lookup : String → Option Bool) (e : Expr) : Except FoldError Bool := do
  match ← work lookup [.visit e] [] with
  | [value] => return value
  | _ => throw .missingOperand

theorem work_visit (lookup : String → Option Bool) (e : Expr) (tasks : List Task)
    (values : List Bool) :
    work lookup (.visit e :: tasks) values =
      match e.eval lookup with
      | .ok value => work lookup tasks (value :: values)
      | .error name => .error (.unknownName name) := by
  induction e generalizing tasks values with
  | literal value => simp [work, eval]
  | var name =>
    simp only [work, eval]
    cases lookup name <;> rfl
  | binary op left right ihl ihr =>
    rw [work, ihl, eval]
    cases left.eval lookup with
    | error name => rfl
    | ok a =>
      simp only [ihr]
      cases right.eval lookup with
      | error name => rfl
      | ok b => simp only [work]; rfl

/-- The fold with stacks has the outcome of recursive evaluation. -/
theorem fold_eq_eval (lookup : String → Option Bool) (e : Expr) :
    e.fold lookup = (e.eval lookup).mapError .unknownName := by
  unfold fold
  rw [work_visit]
  cases e.eval lookup with
  | error name => rfl
  | ok value => simp only [work]; rfl

theorem eval_isOk_of_names (lookup : String → Option Bool) (e : Expr)
    (h : ∀ name ∈ e.names, (lookup name).isSome = true) : ∃ value, e.eval lookup = .ok value := by
  induction e with
  | literal value => exact ⟨value, rfl⟩
  | var name =>
    obtain ⟨value, hvalue⟩ := Option.isSome_iff_exists.mp (h name (by simp [names]))
    exact ⟨value, by simp [eval, hvalue]⟩
  | binary op left right ihl ihr =>
    obtain ⟨a, ha⟩ := ihl fun name hname => h name (by simp [names, hname])
    obtain ⟨b, hb⟩ := ihr fun name hname => h name (by simp [names, hname])
    exact ⟨op.apply a b, by simp only [eval, ha, hb]; rfl⟩

end BoolExpr.Expr
