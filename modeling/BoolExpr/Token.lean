import BoolExpr.Expr

/-!
Tokens of an expression. The kind of a token decides what is read; its text is what messages show
and, for a variable, its name. A sequence of tokens ends at its first end mark; one without an end
mark ends right after its last token, and an empty one ends at position 0.
-/
namespace BoolExpr

namespace Token

inductive Kind where
  | literal (value : Bool)
  | operator (op : Op)
  | opening
  | closing
  | var
  | finish
deriving DecidableEq, Repr

end Token

structure Token where
  kind : Token.Kind
  position : Int
  text : String
deriving DecidableEq, Repr

namespace Token

/-- The tokens before the first end mark. -/
def body (tokens : List Token) : List Token :=
  tokens.takeWhile fun t => t.kind ≠ .finish

def endPosition (tokens : List Token) : Int :=
  match tokens.find? fun t => t.kind = .finish with
  | some mark => mark.position
  | none =>
    match tokens.getLast? with
    | some last => last.position + last.text.length
    | none => 0

end Token

end BoolExpr
