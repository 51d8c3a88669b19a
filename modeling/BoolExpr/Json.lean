/-!
JSON values. Whole numbers are kept exactly; numbers with a fraction or an exponent, and the names
of infinities and of not-a-number, are kept as they are written, since nothing here computes with
them. A string may escape half of a surrogate pair; such a string is no text and has a form of its
own. Members of an object keep their order.
-/
namespace BoolExpr

inductive Json where
  | null
  | bool (value : Bool)
  | integer (value : Int)
  | real (literal : String)
  | string (value : String)
  | brokenString
  | array (items : List Json)
  | object (members : List (String × Json))

namespace Json

instance : Inhabited Json := ⟨null⟩

/-- The value of the last member with a key. -/
def field? (key : String) : Json → Option Json
  | .object members => (members.reverse.find? fun m => m.1 = key).map Prod.snd
  | _ => none

def string? : Json → Option String
  | .string value => some value
  | _ => none

def bool? : Json → Option Bool
  | .bool value => some value
  | _ => none

def integer? : Json → Option Int
  | .integer value => some value
  | _ => none

def array? : Json → Option (List Json)
  | .array items => some items
  | _ => none

def object? : Json → Option (List (String × Json))
  | .object members => some members
  | _ => none

end Json

end BoolExpr
