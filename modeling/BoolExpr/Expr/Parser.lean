import BoolExpr.NestingLimit
import BoolExpr.Reading
import BoolExpr.Token.Lexer

/-!
Expressions from tokens, by recursive descent. A disjunction is conjunctions joined by OR, a
conjunction is operands joined by AND, both joined from the left; an operand is a literal, a
variable or a disjunction in parentheses. Each step returns the tokens that it leaves, fewer than
it was given, and what bounds the descent is the number of parentheses that may still be opened.
-/
namespace BoolExpr.Expr

/-- Reads a tree off the front of the tokens. Where the tree is the right operand of an operator,
that operator is given. -/
abbrev Reader :=
  (after : Option Token) → (tokens : List Token) →
    Except SyntaxError (Reading Token Expr tokens.length)

/-- Joins further operands to `left` as long as the operator `op` follows. -/
def joinFrom (op : Op) (operand : Reader) (left : Expr) :
    (tokens : List Token) → Except SyntaxError (Reading Token Expr (tokens.length + 1))
  | [] => .ok ⟨left, [], by simp⟩
  | t :: rest =>
    if t.kind = .operator op then do
      let right ← operand (some t) rest
      let joined ← joinFrom op operand (.binary op left right.value) right.rest
      return joined.weaken (by have := right.rest_lt; simp only [List.length_cons]; omega)
    else .ok ⟨left, t :: rest, by simp⟩
termination_by tokens => tokens.length
decreasing_by
  have := right.rest_lt
  simp only [List.length_cons]
  omega

def chain (op : Op) (operand : Reader) : Reader := fun after tokens => do
  let first ← operand after tokens
  let joined ← joinFrom op operand first.value first.rest
  return joined.weaken first.rest_lt

def operandWanted : String := "0, 1, a variable or '('"

/-- The failure where an operand is due and the tokens are at their end: an operator lacks its
right operand, or the innermost open parenthesis is never closed, or there is nothing at all. -/
def endFailure (endPosition : Int) (opened : List Token) : Option Token → SyntaxError
  | some op => .missingOperand op.position op.text
  | none =>
    match opened with
    | paren :: _ => .unmatchedParen paren.position "("
    | [] => .emptyExpression endPosition

def close (paren : Token) {n : Nat} (body : Reading Token Expr n) :
    Except SyntaxError (Reading Token Expr n) :=
  match h : body.rest with
  | [] => .error (.unmatchedParen paren.position "(")
  | t :: rest =>
    if t.kind = .closing then
      .ok ⟨body.value, rest, by
        have hlt := body.rest_lt
        simp only [h, List.length_cons] at hlt
        omega⟩
    else .error (.unexpectedToken t.position t.text "')'")

/-- Reads an operand inside the parentheses `opened`, innermost first, when as many more as
`levels` may be opened. -/
def operand (endPosition : Int) : (levels : Nat) → (opened : List Token) → Reader
  | _, opened, after, [] => .error (endFailure endPosition opened after)
  | levels, opened, after, t :: rest =>
    match t.kind with
    | .literal value => .ok ⟨.literal value, rest, by simp⟩
    | .var => .ok ⟨.var t.text, rest, by simp⟩
    | .opening =>
      match levels with
      | 0 => .error (.nestingTooDeep t.position opened.length)
      | levels + 1 => do
        let group := chain .or (chain .and (operand endPosition levels (t :: opened)))
        let body ← group none rest
        let closed ← close t body
        return closed.weaken (by simp)
    | .closing =>
      match after with
      | some op => .error (.missingOperand op.position op.text)
      | none => .error (.unexpectedToken t.position t.text operandWanted)
    | _ => .error (.unexpectedToken t.position t.text operandWanted)

def expression (endPosition : Int) (levels : Nat) (opened : List Token) : Reader :=
  chain .or (chain .and (operand endPosition levels opened))

def ofTokens (limit : NestingLimit) (tokens : List Token) : Except SyntaxError Expr := do
  let whole ← expression (Token.endPosition tokens) limit.value [] none (Token.body tokens)
  match whole.rest with
  | [] => return whole.value
  | t :: _ =>
    if t.kind = .closing then throw (.unmatchedParen t.position ")")
    else throw (.trailingInput t.position t.text)

inductive ReadError where
  | refused (e : ExprError)
  | badLimit (e : RangeError)
deriving DecidableEq

def readTokens (maxDepth : Int) (tokens : List Token) : Except ReadError Expr := do
  let limit ← (NestingLimit.ofInt "max_depth" maxDepth).mapError .badLimit
  (ofTokens limit tokens).mapError fun e => .refused (.malformed e)

/-- The expression that a text is, of whatever length. Lexical errors come before the limit. -/
def read (maxDepth : Int) (source : String) : Except ReadError Expr := do
  let tokens ← (Token.lex source).mapError fun e => .refused (.lexical e)
  readTokens maxDepth tokens

end BoolExpr.Expr
