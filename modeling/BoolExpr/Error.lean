import BoolExpr.NameSet
import BoolExpr.Text.Quoted

/-!
What can be wrong with an expression or with the values of its variables. Each failure is kept as
its cause; its kind, its message and its position are functions of the cause.
-/
namespace BoolExpr

open Text (quote)

namespace LexError

/-- Why a piece of text is no token: its character belongs to none, or it is a word of capitals
that is no operator; or the reporter states the reason in words of its own. -/
inductive Reason where
  | unexpectedCharacter
  | unknownWord (word : String)
  | stated (message : String)
deriving DecidableEq

end LexError

structure LexError where
  position : Int
  character : String
  reason : LexError.Reason
deriving DecidableEq

namespace LexError

def message (e : LexError) : String :=
  match e.reason with
  | .unexpectedCharacter => s!"unexpected character {quote e.character} at position {e.position}"
  | .unknownWord word => s!"unknown operator word {quote word} at position {e.position}"
  | .stated message => message

end LexError

inductive SyntaxError where
  | emptyExpression (position : Int)
  | unexpectedToken (position : Int) (found expected : String)
  | missingOperand (position : Int) (operator : String)
  | unmatchedParen (position : Int) (paren : String)
  | trailingInput (position : Int) (found : String)
  | nestingTooDeep (position limit : Int)
  | stated (position : Int) (message : String)
deriving DecidableEq

namespace SyntaxError

def kind : SyntaxError → String
  | .emptyExpression _ => "empty_expression"
  | .unexpectedToken _ _ _ => "unexpected_token"
  | .missingOperand _ _ => "missing_operand"
  | .unmatchedParen _ _ => "unmatched_paren"
  | .trailingInput _ _ => "trailing_input"
  | .nestingTooDeep _ _ => "nesting_too_deep"
  | .stated _ _ => "syntax_error"

def position : SyntaxError → Int
  | .emptyExpression position => position
  | .unexpectedToken position _ _ => position
  | .missingOperand position _ => position
  | .unmatchedParen position _ => position
  | .trailingInput position _ => position
  | .nestingTooDeep position _ => position
  | .stated position _ => position

def message : SyntaxError → String
  | .emptyExpression _ => "empty expression"
  | .unexpectedToken position found expected =>
    s!"expected {expected}, found {quote found} at position {position}"
  | .missingOperand position operator =>
    s!"operator {operator} at position {position} has no right operand"
  | .unmatchedParen position paren =>
    if paren = "(" then s!"'(' at position {position} is never closed"
    else s!"')' at position {position} has no matching '('"
  | .trailingInput position found =>
    s!"unexpected {quote found} after complete expression at position {position}"
  | .nestingTooDeep position limit =>
    s!"parentheses nested deeper than {limit} at position {position}"
  | .stated _ message => message

end SyntaxError

/-- A failure that the writer of an expression, or of the values for it, can mend. -/
inductive ExprError where
  | lexical (e : LexError)
  | tooLong (length limit : Int)
  | malformed (e : SyntaxError)
  | unboundVariables (missing : NameSet)
  | invalidValue (name value : String)
  | stated (message : String)
deriving DecidableEq

namespace ExprError

def kind : ExprError → String
  | .lexical _ => "lex_error"
  | .tooLong _ _ => "expression_too_long"
  | .malformed e => e.kind
  | .unboundVariables _ => "unbound_variable"
  | .invalidValue _ _ => "invalid_variable_value"
  | .stated _ => "expression_error"

def message : ExprError → String
  | .lexical e => e.message
  | .tooLong length limit => s!"expression has {length} characters, limit is {limit}"
  | .malformed e => e.message
  | .unboundVariables missing =>
    "missing required variables: " ++ String.intercalate ", " missing.toList
  | .invalidValue name value =>
    s!"variable values must be either 0 or 1, received {name}: {quote value}"
  | .stated message => message

def position? : ExprError → Option Int
  | .lexical e => some e.position
  | .malformed e => some e.position
  | _ => none

end ExprError

structure RangeError where
  parameter : String
  low : Int
  high : Int
deriving DecidableEq

namespace RangeError

def message (e : RangeError) : String := s!"{e.parameter} must be between {e.low} and {e.high}"

end RangeError

end BoolExpr
