import BoolExpr.Text.Hexadecimal
import BoolExpr.Text.Printable

/-!
Quoted text, the form in which messages show a piece of input. The enclosing mark is an
apostrophe, or a quotation mark where the text has apostrophes and no quotation marks. Inside,
the enclosing mark and the backslash carry a backslash, tab, line feed and carriage return have
letters of their own, and every other unprintable character is written as its code point in
lowercase hexadecimal, two, four or eight digits wide.
-/
namespace BoolExpr.Text

def enclosingMark (cs : List Char) : Char :=
  if '\x27' ∈ cs ∧ '\x22' ∉ cs then '\x22' else '\x27'

def quoteChar (mark c : Char) : List Char :=
  if c = mark ∨ c = '\\' then ['\\', c]
  else if c = '\t' then ['\\', 't']
  else if c = '\n' then ['\\', 'n']
  else if c = '\r' then ['\\', 'r']
  else if isPrintable c then [c]
  else if c.toNat < 0x100 then '\\' :: 'x' :: hexDigits 2 c.toNat
  else if c.toNat < 0x10000 then '\\' :: 'u' :: hexDigits 4 c.toNat
  else '\\' :: 'U' :: hexDigits 8 c.toNat

def quote (s : String) : String :=
  let mark := enclosingMark s.toList
  String.ofList (mark :: s.toList.flatMap (quoteChar mark) ++ [mark])

end BoolExpr.Text
