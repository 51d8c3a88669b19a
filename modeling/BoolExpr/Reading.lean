/-!
The outcome of reading something off the front of a sequence: the value, and what follows it. A
reading carries a bound on the length of what follows, so that a reader which is called again on
the rest is seen to come to an end.
-/
namespace BoolExpr

structure Reading (σ α : Type) (bound : Nat) where
  value : α
  rest : List σ
  rest_lt : rest.length < bound

namespace Reading

variable {σ α β : Type} {m n : Nat}

def weaken (h : m ≤ n) (r : Reading σ α m) : Reading σ α n :=
  ⟨r.value, r.rest, Nat.lt_of_lt_of_le r.rest_lt h⟩

def map (f : α → β) (r : Reading σ α n) : Reading σ β n := ⟨f r.value, r.rest, r.rest_lt⟩

end Reading

end BoolExpr
