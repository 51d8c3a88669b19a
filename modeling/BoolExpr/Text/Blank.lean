import BoolExpr.Text.CodeRange

/-!
Blank characters around names and numbers. Two classes are in use: white space as Unicode has it,
and the wider class that counts the four information separators U+001C to U+001F as well.
-/
namespace BoolExpr.Text

def whiteSpaceRanges : List CodeRange := [
  (0x0009, 0x000D), (0x0020, 0x0020), (0x0085, 0x0085), (0x00A0, 0x00A0), (0x1680, 0x1680),
  (0x2000, 0x200A), (0x2028, 0x2029), (0x202F, 0x202F), (0x205F, 0x205F), (0x3000, 0x3000)]

def isWhiteSpace (c : Char) : Bool := inRanges whiteSpaceRanges c

def isBlank (c : Char) : Bool := isWhiteSpace c || inRanges [(0x001C, 0x001F)] c

def trim (p : Char → Bool) (cs : List Char) : List Char :=
  ((cs.dropWhile p).reverse.dropWhile p).reverse

def strip (s : String) : String := String.ofList (trim isBlank s.toList)

end BoolExpr.Text
