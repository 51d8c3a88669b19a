import BoolExpr.BoundExpr
import BoolExpr.Expr.Parser

/-!
The engine: expressions are read from text under two limits and evaluated under bindings. A text
that is too long is refused before anything else is looked at, and a lexical error anywhere comes
before an error in the order of the tokens.
-/
namespace BoolExpr

/-- The limits of an engine: the number of characters in a text, where 0 stands for no limit, and
the depth of parentheses. -/
structure Engine where
  maxLength : Int
  nesting : NestingLimit
deriving DecidableEq

inductive Verdict where
  | valid
  | invalid (e : ExprError)
deriving DecidableEq

namespace Engine

def standard : Engine := ⟨4096, .standard⟩

instance : Inhabited Engine := ⟨standard⟩

def ofLimits (maxLength maxDepth : Int) : Except RangeError Engine :=
  (NestingLimit.ofInt "max_nesting_depth" maxDepth).map (⟨maxLength, ·⟩)

def admits (engine : Engine) (length : Nat) : Bool :=
  engine.maxLength = 0 || (length : Int) ≤ engine.maxLength

def parse (engine : Engine) (source : String) : Except ExprError Expr :=
  if engine.admits source.length then do
    let tokens ← (Token.lex source).mapError .lexical
    (Expr.ofTokens engine.nesting tokens).mapError .malformed
  else .error (.tooLong source.length engine.maxLength)

def validate (engine : Engine) (source : String) : Verdict :=
  match engine.parse source with
  | .ok _ => .valid
  | .error e => .invalid e

end Engine

namespace Expr

def evaluate (e : Expr) (b : Bindings) : Except ExprError Bool := (e.bind b).map BoundExpr.value

end Expr

namespace Engine

def evaluate (engine : Engine) (source : String) (b : Bindings) : Except ExprError Bool := do
  let e ← engine.parse source
  e.evaluate b

end Engine

end BoolExpr
