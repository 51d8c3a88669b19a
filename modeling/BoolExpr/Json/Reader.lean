import BoolExpr.Json
import BoolExpr.Reading
import BoolExpr.Text.Hexadecimal
import BoolExpr.Text.Numeral

/-!
JSON values from text. White space may stand around every value and sign. Besides what JSON allows,
the words NaN, Infinity and -Infinity are read as numbers, and the text may begin with a byte order
mark. Strings must escape the controls below U+0020.
-/
namespace BoolExpr.Json

open Text (hexValue? isDigit digitsValue)

abbrev Reader (α : Type) := (cs : List Char) → Option (Reading Char α cs.length)

def isSpace (c : Char) : Bool := c = ' ' || c = '\t' || c = '\n' || c = '\r'

def skipSpace (cs : List Char) : List Char := cs.dropWhile isSpace

theorem skipSpace_length_le (cs : List Char) : (skipSpace cs).length ≤ cs.length :=
  (List.dropWhile_sublist (l := cs) isSpace).length_le

/-- Passes over white space first. -/
def spaced {α : Type} (reader : Reader α) : Reader α := fun cs =>
  (reader (skipSpace cs)).map (·.weaken (skipSpace_length_le cs))

def unescape? : Char → Option Char
  | '\x22' => some '\x22'
  | '\\' => some '\\'
  | '/' => some '/'
  | 'b' => some '\x08'
  | 'f' => some '\x0c'
  | 'n' => some '\n'
  | 'r' => some '\r'
  | 't' => some '\t'
  | _ => none

/-- Reads the inside of a string up to its closing mark, as code points and surrogates. -/
def units : Reader (List Nat)
  | [] => none
  | '\x22' :: rest => some ⟨[], rest, by simp⟩
  | '\\' :: 'u' :: a :: b :: c :: d :: rest => do
    let n := 4096 * (← hexValue? a) + 256 * (← hexValue? b) + 16 * (← hexValue? c) + (← hexValue? d)
    let more ← units rest
    return (more.map (n :: ·)).weaken (by simp [Nat.add_assoc])
  | '\\' :: e :: rest => do
    let c ← unescape? e
    let more ← units rest
    return (more.map (c.toNat :: ·)).weaken (by simp [Nat.add_assoc])
  | c :: rest =>
    if c = '\\' ∨ c.toNat < 0x20 then none
    else do
      let more ← units rest
      return (more.map (c.toNat :: ·)).weaken (by simp)

def isHighSurrogate (n : Nat) : Bool := 0xD800 ≤ n && n ≤ 0xDBFF

def isLowSurrogate (n : Nat) : Bool := 0xDC00 ≤ n && n ≤ 0xDFFF

/-- Joins surrogates that stand in pairs; there is no text where one stands alone. -/
def joinSurrogates : List Nat → Option (List Char)
  | [] => some []
  | [n] =>
    if isHighSurrogate n || isLowSurrogate n then none else some [Char.ofNat n]
  | m :: n :: rest =>
    if isHighSurrogate m then
      if isLowSurrogate n then
        (joinSurrogates rest).map (Char.ofNat (0x10000 + 0x400 * (m - 0xD800) + (n - 0xDC00)) :: ·)
      else none
    else if isLowSurrogate m then none
    else (joinSurrogates (n :: rest)).map (Char.ofNat m :: ·)

def text : Reader (Option String)
  | '\x22' :: rest => do
    let inside ← units rest
    return (inside.map fun ns => (joinSurrogates ns).map String.ofList).weaken (by simp)
  | _ => none

def fractionPart : List Char → List Char
  | '.' :: rest =>
    match rest.takeWhile isDigit with
    | [] => []
    | digits => '.' :: digits
  | _ => []

def exponentPart : List Char → List Char
  | e :: rest =>
    if e = 'e' ∨ e = 'E' then
      let sign := rest.takeWhile (fun c => c = '+' || c = '-') |>.take 1
      match (rest.drop sign.length).takeWhile isDigit with
      | [] => []
      | digits => e :: sign ++ digits
    else []
  | [] => []

/-- The digits of a whole number at the front, without leading zeros. -/
def wholePart (cs : List Char) : List Char :=
  match cs with
  | '0' :: _ => ['0']
  | _ => cs.takeWhile isDigit

def number : Reader Json := fun cs =>
  let sign := cs.takeWhile (· = '-') |>.take 1
  let whole := wholePart (cs.drop sign.length)
  let fraction := fractionPart (cs.drop (sign.length + whole.length))
  let exponent := exponentPart (cs.drop (sign.length + whole.length + fraction.length))
  let count := sign.length + whole.length + fraction.length + exponent.length
  if h : whole ≠ [] ∧ cs ≠ [] then
    let value :=
      if fraction = [] ∧ exponent = [] then
        .integer (if sign = [] then digitsValue whole else -(digitsValue whole : Int))
      else .real (String.ofList (cs.take count))
    some ⟨value, cs.drop count, by
      have hw : 0 < whole.length := List.length_pos_iff.mpr h.1
      have hc : 0 < cs.length := List.length_pos_iff.mpr h.2
      simp only [List.length_drop]
      omega⟩
  else none

def word (w : String) (value : Json) : Reader Json := fun cs =>
  if h : w.toList.isPrefixOf cs ∧ w.toList ≠ [] ∧ cs ≠ [] then
    some ⟨value, cs.drop w.toList.length, by
      have hw : 0 < w.toList.length := List.length_pos_iff.mpr h.2.1
      have hc : 0 < cs.length := List.length_pos_iff.mpr h.2.2
      simp only [List.length_drop]
      omega⟩
  else none

def stringValue : Reader Json := fun cs =>
  (text cs).map (·.map fun s => s.elim .brokenString .string)

def atom : Reader Json := fun cs =>
  stringValue cs <|> word "null" .null cs <|> word "true" (.bool true) cs <|>
    word "false" (.bool false) cs <|> word "NaN" (.real "NaN") cs <|>
    word "Infinity" (.real "Infinity") cs <|> word "-Infinity" (.real "-Infinity") cs <|> number cs

def sign (c : Char) : Reader Unit
  | d :: rest => if d = c then some ⟨(), rest, by simp⟩ else none
  | [] => none

/-- One or more items with commas between them, up to the sign `finish`. -/
def separated {α : Type} (finish : Char) (item : Reader α) (cs : List Char) :
    Option (Reading Char (List α) cs.length) := do
  let first ← item cs
  match spaced (sign finish) first.rest with
  | some last => return ⟨[first.value], last.rest, Nat.lt_trans last.rest_lt first.rest_lt⟩
  | none =>
    let comma ← spaced (sign ',') first.rest
    let more ← separated finish item comma.rest
    return (more.map (first.value :: ·)).weaken
      (Nat.le_of_lt (Nat.lt_trans comma.rest_lt first.rest_lt))
termination_by cs.length
decreasing_by exact Nat.lt_trans comma.rest_lt first.rest_lt

def items {α : Type} (finish : Char) (item : Reader α) : Reader (List α) := fun cs =>
  match spaced (sign finish) cs with
  | some last => some ⟨[], last.rest, last.rest_lt⟩
  | none => separated finish item cs

def member (value : Reader Json) : Reader (Option String × Json) := fun cs => do
  let key ← spaced text cs
  let colon ← spaced (sign ':') key.rest
  let v ← value colon.rest
  return ⟨(key.value, v.value), v.rest,
    Nat.lt_trans v.rest_lt (Nat.lt_trans colon.rest_lt key.rest_lt)⟩

/-- The members of an object. A key that is no text can be looked up by none, and is left out. -/
def namedMembers (ms : List (Option String × Json)) : List (String × Json) :=
  ms.filterMap fun m => m.1.map fun key => (key, m.2)

def value : (levels : Nat) → Reader Json
  | 0 => spaced atom
  | levels + 1 => spaced fun
    | '[' :: rest => (items ']' (value levels) rest).map fun r => (r.map .array).weaken (by simp)
    | '\x7b' :: rest => (items '\x7d' (member (value levels)) rest).map fun r =>
      (r.map fun ms => .object (namedMembers ms)).weaken (by simp)
    | cs => atom cs

/-- The value that a text is, if it is one. A text cannot be nested deeper than it is long. -/
def parse? (source : String) : Option Json := do
  let cs := match source.toList with
    | '\uFEFF' :: rest => rest
    | cs => cs
  let whole ← value cs.length cs
  match skipSpace whole.rest with
  | [] => return whole.value
  | _ => none

end BoolExpr.Json
