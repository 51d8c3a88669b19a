import BoolExpr.Text.Hexadecimal
import BoolExpr.Text.Utf8

/-!
Query strings: names and values joined by equals signs, the pairs separated by ampersands. A plus
sign stands for a space and a percent sign with two hexadecimal digits for a byte; a percent sign
without them stands for itself. The bytes are UTF-8.
-/
namespace BoolExpr.Query

open Text (hexValue?)

def ownBytes (c : Char) : List Nat := (String.utf8EncodeChar c).map UInt8.toNat

def componentBytes : List Char → List Nat
  | [] => []
  | '%' :: a :: b :: rest =>
    match hexValue? a, hexValue? b with
    | some high, some low => (16 * high + low) :: componentBytes rest
    | _, _ => ownBytes '%' ++ componentBytes (a :: b :: rest)
  | c :: rest => ownBytes (if c = '+' then ' ' else c) ++ componentBytes rest

def decodeComponent (cs : List Char) : String := Text.decodeUtf8 (componentBytes cs)

def splitPairs : List Char → List (List Char)
  | [] => [[]]
  | c :: rest =>
    match splitPairs rest with
    | [] => [[c]]
    | first :: more => if c = '&' then [] :: first :: more else (c :: first) :: more

def decodePair (cs : List Char) : String × String :=
  (decodeComponent (cs.takeWhile (· != '=')), decodeComponent ((cs.dropWhile (· != '=')).drop 1))

/-- The pairs of a query in order; empty pieces are passed over. -/
def pairs (query : String) : List (String × String) :=
  ((splitPairs query.toList).filter (!·.isEmpty)).map decodePair

end BoolExpr.Query
