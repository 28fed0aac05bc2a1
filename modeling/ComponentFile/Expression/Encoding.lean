import ComponentFile.Expression.Basic
import ComponentFile.Json

/-!
# Expressions as JSON

Each node is an object whose field `type` names its form.
-/

namespace ComponentFile

/-- The JSON value of a constant. -/
def Literal.toJson : Literal → Json
  | .string content => .text content
  | .number value => .binary value
  | .bool value => .bool value

namespace Expression

mutual

/-- The JSON value of an expression tree. -/
def toJson : Expression → Json
  | .identifier name => .ofFields [("type", .string "identifier"), ("name", .text name)]
  | .property object name =>
    .ofFields
      [("type", .string "property_access"), ("object", toJson object), ("property", .text name)]
  | .call callee arguments =>
    .ofFields
      [("type", .string "call"), ("callee", toJson callee), ("args", .array (listToJson arguments))]
  | .binary op left right =>
    .ofFields
      [("type", .string "binary"), ("op", .text op.symbol), ("left", toJson left),
       ("right", toJson right)]
  | .unary op operand =>
    .ofFields [("type", .string "unary"), ("op", .text op.symbol), ("operand", toJson operand)]
  | .conditional condition consequent alternate =>
    .ofFields
      [("type", .string "conditional"), ("condition", toJson condition),
       ("consequent", toJson consequent), ("alternate", toJson alternate)]
  | .literal value => .ofFields [("type", .string "literal"), ("value", value.toJson)]
  | .unknown raw => .ofFields [("type", .string "unknown"), ("raw", .text raw)]

/-- The JSON values of a list of expression trees. -/
def listToJson : List Expression → List Json
  | [] => []
  | expression :: rest => toJson expression :: listToJson rest

end

end Expression

end ComponentFile
