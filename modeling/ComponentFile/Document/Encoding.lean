import ComponentFile.Directive.Encoding
import ComponentFile.Document.Basic

/-!
# Documents as JSON

The fields of a processed template stand beside those of its block. A position or block that is not
known has no field, and the text of a document and the trees of its blocks never have one.
-/

namespace ComponentFile

/-- The JSON value of a point. -/
def Point.toJson (point : Point) : Json :=
  .ofFields [("row", .nat point.row), ("column", .nat point.column)]

/-- The JSON value of a position. -/
def Position.toJson : Position → Json
  | .byte offset => .ofFields [("byte", .nat offset)]
  | .span start stop =>
    .ofFields [("span", .ofFields [("start", start.toJson), ("end", stop.toJson)])]

/-- The JSON value of a diagnostic. -/
def Diagnostic.toJson (diagnostic : Diagnostic) : Json :=
  let position := diagnostic.position.map fun position => ("position", position.toJson)
  let block := diagnostic.block.map fun block => ("section", Json.string block.name)
  .ofFields
    ([("kind", .string diagnostic.kind.name), ("message", .string diagnostic.message),
      ("severity", .string diagnostic.severity.name)] ++ position.toList ++ block.toList)

/-- The fields of a processed template. -/
def ProcessedTemplate.fields (template : ProcessedTemplate) : List (String × Json) :=
  [("processed_content", .text template.content),
   ("directives", .array (template.directives.toList.map Directive.toJson))]

/-- The JSON value of a block. -/
def Section.toJson {Tree : Type} (part : Section Tree) : Json :=
  .ofFields
    ([("kind", .string part.kind.name), ("content", .text part.content), ("start", .nat part.start),
      ("end", .nat part.stop), ("errors", .array (part.diagnostics.map Diagnostic.toJson))] ++
      (part.template.map ProcessedTemplate.fields).getD [])

/-- The JSON value of a document. -/
def Document.toJson {Tree : Type} (document : Document Tree) : Json :=
  .ofFields
    [("sections", .array (document.sections.map Section.toJson)),
     ("errors", .array (document.diagnostics.map Diagnostic.toJson))]

end ComponentFile
