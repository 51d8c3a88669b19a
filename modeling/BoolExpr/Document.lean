import BoolExpr.Engine
import BoolExpr.Json
import BoolExpr.NodeTable

/-!
What is said about expressions in JSON: the details of a failure, the verdict on a text, and the
parse document, which holds the text, its tree as a flat table, and its variables in order. A field
that does not apply is left out.
-/
namespace BoolExpr

namespace ExprError

/-- The fields of a failure besides its kind and message. -/
def fields : ExprError → List (String × Json)
  | .lexical e => [("position", .integer e.position), ("character", .string e.character)]
  | .tooLong _ limit => [("limit", .integer limit)]
  | .malformed (.unexpectedToken position found _) =>
    [("position", .integer position), ("found", .string found)]
  | .malformed (.trailingInput position found) =>
    [("position", .integer position), ("found", .string found)]
  | .malformed (.nestingTooDeep position limit) =>
    [("position", .integer position), ("limit", .integer limit)]
  | .malformed e => [("position", .integer e.position)]
  | .unboundVariables missing => [("missing", .array (missing.toList.map .string))]
  | .invalidValue name value => [("name", .string name), ("value", .string value)]
  | .stated _ => []

def detail (e : ExprError) : Json :=
  .object (("kind", .string e.kind) :: ("message", .string e.message) :: e.fields)

end ExprError

namespace Verdict

def toJson : Verdict → Json
  | .valid => .object [("valid", .bool true)]
  | .invalid e => .object [("valid", .bool false), ("error", e.detail)]

end Verdict

namespace Node

def toJson : Node → Json
  | .literal value => .object [("node_type", .string "literal"), ("value", .bool value)]
  | .var name => .object [("node_type", .string "variable"), ("name", .string name)]
  | .binary op left right =>
    .object [("node_type", .string "binop"), ("op", .string op.word), ("left", .integer left),
      ("right", .integer right)]

end Node

namespace Expr

def treeMembers (e : Expr) : List (String × Json) :=
  [("nodes", .array (e.flatten.map Node.toJson)),
    ("variables", .array (e.vars.toList.map .string))]

def document (source : String) (e : Expr) : Json :=
  .object (("expression", .string source) :: e.treeMembers)

end Expr

end BoolExpr
