/-!
Sets of code points written as lists of closed ranges, the form in which the tables of the
character properties are kept.
-/
namespace BoolExpr.Text

/-- The code points from the first component to the second, both included. -/
abbrev CodeRange := Nat × Nat

def CodeRange.contains (r : CodeRange) (n : Nat) : Bool := r.1 ≤ n && n ≤ r.2

def inRanges (ranges : List CodeRange) (c : Char) : Bool :=
  ranges.any (·.contains c.toNat)

end BoolExpr.Text
