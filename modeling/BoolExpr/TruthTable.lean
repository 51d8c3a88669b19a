import BoolExpr.Engine

/-!
Truth tables. There is a row for every assignment to the variables; the first variable changes
slowest, and false comes before true.
-/
namespace BoolExpr

structure TruthTable where
  vars : NameSet
  rows : List Bool
deriving DecidableEq

namespace TruthTable

def assignments : List String → List (List (String × Bool))
  | [] => [[]]
  | name :: names =>
    (assignments names).map ((name, false) :: ·) ++ (assignments names).map ((name, true) :: ·)

end TruthTable

namespace Expr

def truthTable (e : Expr) : Except ExprError TruthTable := do
  let rows ← (TruthTable.assignments e.vars.toList).mapM fun assignment =>
    e.evaluate (Bindings.ofList assignment)
  return ⟨e.vars, rows⟩

end Expr

end BoolExpr
