import BoolExpr.Text.LetterCase

/-!
Lowercase of a whole text. All characters but two are mapped one by one: a capital I with a dot
becomes an i and a combining dot, and a capital sigma becomes a final sigma at the end of a word,
that is, after a cased character and not before one, the case-ignorable characters in between
being passed over.
-/
namespace BoolExpr.Text

/-- Whether the first character that is not case-ignorable exists and is cased. -/
def reachesCased (cs : List Char) : Bool :=
  (cs.dropWhile isCaseIgnorable).head?.any isCased

/-- The lowercase form of `c` after the characters `before`, nearest first, and before `rest`. -/
def lowerAt (before : List Char) (c : Char) (rest : List Char) : List Char :=
  if c = '\u03A3' then
    if reachesCased before && !reachesCased rest then ['\u03C2'] else ['\u03C3']
  else if c = '\u0130' then ['i', '\u0307']
  else [lowerChar c]

def lowerFrom (before : List Char) : List Char → List Char
  | [] => []
  | c :: rest => lowerAt before c rest ++ lowerFrom (c :: before) rest

def lowercase (s : String) : String := String.ofList (lowerFrom [] s.toList)

end BoolExpr.Text
