import BoolExpr.NameSet

/-!
Boolean expressions as trees. Parentheses leave no trace: the shape of the tree is the grouping.
-/
namespace BoolExpr

inductive Op where
  | and
  | or
deriving DecidableEq, Repr

namespace Op

def word : Op → String
  | .and => "AND"
  | .or => "OR"

def apply : Op → Bool → Bool → Bool
  | .and, a, b => a && b
  | .or, a, b => a || b

end Op

inductive Expr where
  | literal (value : Bool)
  | var (name : String)
  | binary (op : Op) (left right : Expr)
deriving DecidableEq, Repr

namespace Expr

def size : Expr → Nat
  | .literal _ => 1
  | .var _ => 1
  | .binary _ left right => 1 + left.size + right.size

theorem size_pos (e : Expr) : 0 < e.size := by
  cases e with
  | literal value => exact Nat.one_pos
  | var name => exact Nat.one_pos
  | binary op left right =>
    unfold size
    omega

/-- The names at the leaves, from left to right, each as often as it occurs. -/
def names : Expr → List String
  | .literal _ => []
  | .var name => [name]
  | .binary _ left right => left.names ++ right.names

def vars (e : Expr) : NameSet := NameSet.ofList e.names

theorem mem_vars {name : String} {e : Expr} : name ∈ e.vars ↔ name ∈ e.names :=
  NameSet.mem_ofList

end Expr

end BoolExpr
