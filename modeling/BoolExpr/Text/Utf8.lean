/-!
Text from UTF-8 bytes of any origin. Bytes that do not form a character are replaced: each longest
run of bytes that could have begun one, and each byte that could not, becomes one U+FFFD.
-/
namespace BoolExpr.Text

/-- A character begun: `due` more bytes are to come after the next one, `bits` have been read, and
the next byte must lie between `low` and `high`. For a second byte these bounds exclude overlong
forms, surrogates and numbers past U+10FFFF. -/
structure Utf8Pending where
  due : Nat
  bits : Nat
  low : Nat
  high : Nat

def replacement : Char := '\uFFFD'

/-- The characters that a first byte completes, and the one that it begins. -/
def utf8Start (b : Nat) : List Char × Option Utf8Pending :=
  if b < 0x80 then ([Char.ofNat b], none)
  else if b < 0xC2 then ([replacement], none)
  else if b < 0xE0 then ([], some ⟨0, b - 0xC0, 0x80, 0xBF⟩)
  else if b = 0xE0 then ([], some ⟨1, 0, 0xA0, 0xBF⟩)
  else if b = 0xED then ([], some ⟨1, 0xD, 0x80, 0x9F⟩)
  else if b < 0xF0 then ([], some ⟨1, b - 0xE0, 0x80, 0xBF⟩)
  else if b = 0xF0 then ([], some ⟨2, 0, 0x90, 0xBF⟩)
  else if b < 0xF4 then ([], some ⟨2, b - 0xF0, 0x80, 0xBF⟩)
  else if b = 0xF4 then ([], some ⟨2, 4, 0x80, 0x8F⟩)
  else ([replacement], none)

/-- One byte on: a byte that cannot continue the character begun ends it, and starts anew. -/
def utf8Step : Option Utf8Pending → Nat → List Char × Option Utf8Pending
  | none, b => utf8Start b
  | some p, b =>
    if p.low ≤ b ∧ b ≤ p.high then
      let bits := 64 * p.bits + (b - 0x80)
      match p.due with
      | 0 => ([Char.ofNat bits], none)
      | due + 1 => ([], some ⟨due, bits, 0x80, 0xBF⟩)
    else (replacement :: (utf8Start b).1, (utf8Start b).2)

def utf8From : Option Utf8Pending → List Nat → List Char
  | none, [] => []
  | some _, [] => [replacement]
  | pending, b :: bs => (utf8Step pending b).1 ++ utf8From (utf8Step pending b).2 bs

def decodeUtf8 (bytes : List Nat) : String := String.ofList (utf8From none bytes)

end BoolExpr.Text
