import BoolExpr.Error
import BoolExpr.Token

/-!
The tokens of a text. White space separates and is dropped; the digits 0 and 1 and the parentheses
stand for themselves; letters form words that are as long as possible. The words AND and OR are
operators, and every other word is a variable, named by its lowercase form, unless it consists of
two or more capitals. Positions count characters from the start of the text.
-/
namespace BoolExpr.Token

/-- The white space of expressions: space, tab, line feed, vertical tab, form feed and carriage
return. -/
def isSpace (c : Char) : Bool := c = ' ' || ('\t' ≤ c && c ≤ '\r')

def isCapital (c : Char) : Bool := 'A' ≤ c && c ≤ 'Z'

def isLetter (c : Char) : Bool := isCapital c || ('a' ≤ c && c ≤ 'z')

def markKind? : Char → Option Kind
  | '0' => some (.literal false)
  | '1' => some (.literal true)
  | '(' => some .opening
  | ')' => some .closing
  | _ => none

def ofWord (position : Nat) (word : List Char) : Except LexError Token :=
  if word = ['A', 'N', 'D'] then .ok ⟨.operator .and, position, "AND"⟩
  else if word = ['O', 'R'] then .ok ⟨.operator .or, position, "OR"⟩
  else if word.all isCapital ∧ 1 < word.length then
    .error ⟨position, String.ofList (word.take 1), .unknownWord (String.ofList word)⟩
  else .ok ⟨.var, position, String.ofList (word.map Char.toLower)⟩

/-- The tokens of a text that begins at `position`, with the end mark after them. -/
def lexFrom (position : Nat) : List Char → Except LexError (List Token)
  | [] => .ok [⟨.finish, position, ""⟩]
  | c :: rest =>
    if isSpace c then lexFrom (position + 1) rest
    else if isLetter c then do
      let word := c :: rest.takeWhile isLetter
      let token ← ofWord position word
      let tokens ← lexFrom (position + word.length) (rest.dropWhile isLetter)
      return token :: tokens
    else
      match markKind? c with
      | some kind => do
        let tokens ← lexFrom (position + 1) rest
        return ⟨kind, position, String.singleton c⟩ :: tokens
      | none => .error ⟨position, String.singleton c, .unexpectedCharacter⟩
termination_by cs => cs.length
decreasing_by
  · simp
  · have := (List.dropWhile_sublist (l := rest) isLetter).length_le
    simp only [List.length_cons]
    omega
  · simp

def lex (source : String) : Except LexError (List Token) := lexFrom 0 source.toList

end BoolExpr.Token
