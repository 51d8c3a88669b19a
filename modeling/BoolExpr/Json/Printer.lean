import BoolExpr.Json
import BoolExpr.Text.Hexadecimal

/-!
Two written forms of a JSON value: a compact one without spaces, and one with a line for every item
and member, indented by two spaces a level. Strings stand in quotation marks; inside, quotation
mark, backslash and the controls below U+0020 are escaped, by a letter where there is one.
-/
namespace BoolExpr.Json

open Text (hexDigits)

def escapeChar (c : Char) : List Char :=
  if c = '\x22' then ['\\', '\x22']
  else if c = '\\' then ['\\', '\\']
  else if c = '\x08' then ['\\', 'b']
  else if c = '\t' then ['\\', 't']
  else if c = '\n' then ['\\', 'n']
  else if c = '\x0c' then ['\\', 'f']
  else if c = '\r' then ['\\', 'r']
  else if c.toNat < 0x20 then '\\' :: 'u' :: hexDigits 4 c.toNat
  else [c]

def printString (s : String) : List Char := '\x22' :: s.toList.flatMap escapeChar ++ ['\x22']

/-- The written form of a value that is neither a list nor an object. A string that is no text is
written with the replacement character. -/
def printAtom : Json → List Char
  | .bool true => "true".toList
  | .bool false => "false".toList
  | .integer value => (toString value).toList
  | .real literal => literal.toList
  | .string value => printString value
  | .brokenString => printString "\uFFFD"
  | _ => "null".toList

mutual

def compactChars : Json → List Char
  | .array [] => ['[', ']']
  | .array (item :: items) => '[' :: compactChars item ++ compactItems items
  | .object [] => ['\x7b', '\x7d']
  | .object ((key, value) :: members) =>
    '\x7b' :: printString key ++ ':' :: compactChars value ++ compactMembers members
  | atom => printAtom atom

/-- The items after the first, and the closing bracket. -/
def compactItems : List Json → List Char
  | [] => [']']
  | item :: items => ',' :: compactChars item ++ compactItems items

def compactMembers : List (String × Json) → List Char
  | [] => ['\x7d']
  | (key, value) :: members =>
    ',' :: printString key ++ ':' :: compactChars value ++ compactMembers members

end

def compact (j : Json) : String := String.ofList (compactChars j)

def newline (level : Nat) : List Char := '\n' :: List.replicate (2 * level) ' '

mutual

def indentedChars (level : Nat) : Json → List Char
  | .array [] => ['[', ']']
  | .array (item :: items) =>
    '[' :: newline (level + 1) ++ indentedChars (level + 1) item ++ indentedItems level items
  | .object [] => ['\x7b', '\x7d']
  | .object ((key, value) :: members) =>
    '\x7b' :: newline (level + 1) ++ printString key ++ ':' :: ' ' ::
      indentedChars (level + 1) value ++ indentedMembers level members
  | atom => printAtom atom

def indentedItems (level : Nat) : List Json → List Char
  | [] => newline level ++ [']']
  | item :: items =>
    ',' :: newline (level + 1) ++ indentedChars (level + 1) item ++ indentedItems level items

def indentedMembers (level : Nat) : List (String × Json) → List Char
  | [] => newline level ++ ['\x7d']
  | (key, value) :: members =>
    ',' :: newline (level + 1) ++ printString key ++ ':' :: ' ' ::
      indentedChars (level + 1) value ++ indentedMembers level members

end

def indented (j : Json) : String := String.ofList (indentedChars 0 j)

end BoolExpr.Json
