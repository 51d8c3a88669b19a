import BoolExpr.Error

/-!
How deep parentheses may be nested. The limit itself is bounded, so that reading an expression
never takes more nested steps than a fixed number.
-/
namespace BoolExpr

/-- The largest limit that may be chosen. -/
def NestingLimit.max : Nat := 128

structure NestingLimit where
  value : Nat
  one_le : 1 ≤ value
  le_max : value ≤ NestingLimit.max
deriving DecidableEq

namespace NestingLimit

def standard : NestingLimit := ⟨64, by decide, by decide⟩

instance : Inhabited NestingLimit := ⟨standard⟩

def ofInt (parameter : String) (n : Int) : Except RangeError NestingLimit :=
  if h : 1 ≤ n ∧ n ≤ max then .ok ⟨n.toNat, by omega, by omega⟩
  else .error ⟨parameter, 1, max⟩

end NestingLimit

end BoolExpr
