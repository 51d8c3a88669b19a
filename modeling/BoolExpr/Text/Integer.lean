import BoolExpr.Text.Blank
import BoolExpr.Text.Numeral

/-!
Integers as they are written in settings. White space around a number does not count, nor do a plus
sign, zeros at its front with any underscores among them, a point with one or more zeros and nothing
else after it, and single underscores inside. What is left is a numeral, perhaps after a minus sign.
The zeros at the front go before the minus sign is looked at, so they may stand before it as well as
after it.
-/
namespace BoolExpr.Text

inductive IntegerError where
  | notAnInteger
  | tooLong
deriving DecidableEq

/-- The length of the longest numeral that is read, a minus sign included. -/
def maxNumeralLength : Nat := 4300

/-- Takes off a plus sign, unless a minus sign follows it. -/
def dropPlus? : List Char → Option (List Char)
  | '+' :: '-' :: _ => none
  | '+' :: rest => some rest
  | cs => some cs

/-- Whether a number can begin with a character when zeros at its front do not count. -/
def beginsNumber (c : Char) : Bool := c = '-' || ('1' ≤ c && c ≤ '9')

/-- What is left of a text after zeros and underscores, of which `last` is the last one. It stays
where nothing or a point comes after it. -/
def afterZeros? (last : Char) : List Char → Option (List Char)
  | [] => some [last]
  | c :: rest =>
    if c = '0' ∨ c = '_' then afterZeros? c rest
    else if c = '.' then some (last :: c :: rest)
    else if beginsNumber c then some (c :: rest)
    else none

def dropZeros? : List Char → Option (List Char)
  | [] => none
  | c :: rest =>
    if c = '0' then afterZeros? c rest
    else if beginsNumber c then some (c :: rest)
    else none

/-- Takes off a point with one or more zeros and nothing else after it. -/
def dropPointZeros (cs : List Char) : List Char :=
  let fraction := (cs.dropWhile (· != '.')).drop 1
  if fraction ≠ [] ∧ fraction.all (· == '0') then cs.takeWhile (· != '.') else cs

def hasDoubleUnderscore : List Char → Bool
  | '_' :: '_' :: _ => true
  | _ :: rest => hasDoubleUnderscore rest
  | [] => false

/-- Takes out the underscores, if each of them stands alone and inside the text. -/
def dropUnderscores (cs : List Char) : List Char :=
  if cs.head? = some '_' ∨ cs.getLast? = some '_' ∨ hasDoubleUnderscore cs then cs
  else cs.filter (· != '_')

/-- Reads a numeral, perhaps after a minus sign. One that is too long is refused for its length,
whatever comes after it. -/
def readNumeral (cs : List Char) : Except IntegerError Int :=
  let sign := (cs.takeWhile (· = '-')).take 1
  let digits := (cs.drop sign.length).takeWhile isDigit
  if maxNumeralLength < sign.length + digits.length then .error .tooLong
  else if sign ++ digits ≠ cs ∨ digits = [] then .error .notAnInteger
  else .ok (if sign = [] then digitsValue digits else -(digitsValue digits : Int))

def readInteger (s : String) : Except IntegerError Int :=
  match (dropPlus? (trim isWhiteSpace s.toList)).bind dropZeros? with
  | some cs => readNumeral (dropUnderscores (dropPointZeros cs))
  | none => .error .notAnInteger

end BoolExpr.Text
