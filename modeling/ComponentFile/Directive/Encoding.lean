import ComponentFile.Directive.Basic
import ComponentFile.Expression.Encoding
import ComponentFile.Expression.Reader

/-!
# Directives as JSON

A directive is one object with its place, its source text and the fields of its kind. Wherever a
directive holds the text of an expression, its tree stands beside it.
-/

namespace ComponentFile

/-- The JSON value of an attribute's value; a bare name is true. -/
def AttributeValue.toJson : AttributeValue → Json
  | .text value => .text value
  | .flag => .bool true

/-- The JSON value of the expression tree of a text. -/
def expressionTree (text : Text) : Json := (Expression.parse text).toJson

/-- The JSON value of an arm. -/
def Branch.toJson (branch : Branch) : Json :=
  let head := match branch.kind with
    | .primary => [("type", .string "primary")]
    | .elseIf condition =>
      [("type", .string "else_if"), ("condition", .text condition),
       ("parsed_condition", expressionTree condition)]
    | .otherwise => [("type", .string "else")]
  .ofFields (head ++
    [("body", .text branch.body), ("processed_body", .text branch.processedBody)])

/-- The fields that belong to a kind of directive. -/
def DirectiveKind.fields : DirectiveKind → List (String × Json)
  | .interpolation expression =>
    [("expression", .text expression), ("parsed", expressionTree expression)]
  | .conditional condition branches =>
    [("condition", .text condition), ("parsed_condition", expressionTree condition),
     ("branches", .array (branches.map Branch.toJson))]
  | .loop iterable item indexName body processedBody =>
    [("iterable", .text iterable), ("parsed_iterable", expressionTree iterable),
     ("item", .text item), ("index_name", (indexName.map Json.text).getD .null),
     ("body", .text body), ("processed_body", .text processedBody)]
  | .rawMarkup content => [("content", .text content), ("parsed", expressionTree content)]
  | .component tag runtime attributes children =>
    [("tag", .text tag), ("target_runtime", .text runtime),
     ("attributes",
       .object (attributes.map fun (name, value) => (String.ofList name, value.toJson))),
     ("children", .text children)]

/-- The JSON value of a directive. -/
def Directive.toJson (directive : Directive) : Json :=
  .ofFields
    ([("index", .nat directive.index), ("type", .string directive.kind.typeName),
      ("start", .nat directive.start), ("end", .nat directive.stop),
      ("original", .text directive.source)] ++ directive.kind.fields)

end ComponentFile
