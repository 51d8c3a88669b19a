import BoolExpr.Expr

/-!
Trees as flat tables. The rows are the nodes in preorder, so the root is row 0, and a row for an
operator refers to its operands by their row numbers. Decoding follows the references back to the
tree.
-/
namespace BoolExpr

inductive Node where
  | literal (value : Bool)
  | var (name : String)
  | binary (op : Op) (left right : Nat)
deriving DecidableEq, Repr

namespace Expr

/-- The rows of a tree whose root is row `start`. -/
def rowsFrom (start : Nat) : Expr → List Node
  | .literal value => [.literal value]
  | .var name => [.var name]
  | .binary op left right =>
    .binary op (start + 1) (start + 1 + left.size) ::
      (left.rowsFrom (start + 1) ++ right.rowsFrom (start + 1 + left.size))

def flatten (e : Expr) : List Node := e.rowsFrom 0

theorem length_rowsFrom (start : Nat) (e : Expr) : (e.rowsFrom start).length = e.size := by
  induction e generalizing start with
  | literal value => rfl
  | var name => rfl
  | binary op left right ihl ihr => simp [rowsFrom, size, ihl, ihr]; omega

end Expr

namespace Node

/-- The tree below row `i`. References that do not lead onwards in the table have none. -/
def decodeAt? (rows : List Node) (i : Nat) : Option Expr :=
  if h : i < rows.length then
    match rows[i] with
    | .literal value => some (.literal value)
    | .var name => some (.var name)
    | .binary op left right =>
      if i < left ∧ i < right then do
        let l ← decodeAt? rows left
        let r ← decodeAt? rows right
        return .binary op l r
      else none
  else none
termination_by rows.length - i

def decode? (rows : List Node) : Option Expr := decodeAt? rows 0

end Node

end BoolExpr
