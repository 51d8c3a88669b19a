/-!
Decimal numerals of the ASCII digits, without regard to their length or to zeros at the front.
-/
namespace BoolExpr.Text

def isDigit (c : Char) : Bool := '0' ≤ c && c ≤ '9'

def digitsValue (digits : List Char) : Nat :=
  digits.foldl (fun n c => 10 * n + (c.toNat - '0'.toNat)) 0

end BoolExpr.Text
