import ComponentFile.Settings
import ComponentFile.Template.Component
import ComponentFile.Template.Conditional
import ComponentFile.Template.Insertion
import ComponentFile.Template.Loop

/-!
# Processing a template

A fragment is processed in two phases. First conditionals, loops and raw markup are taken out, in
passes that end when one finds nothing or the limit is reached; then the interpolations that remain.
Bodies of conditionals and loops are fragments of their own, processed before the directive around
them is added. Embedded components are taken out at the end, once, over the whole processed
template.
-/

namespace ComponentFile

/-- A template with its directives replaced by placeholders, and the directives. -/
structure ProcessedTemplate where
  /-- The processed text. -/
  content : Text
  /-- Every directive, at its index. -/
  directives : Registry
  deriving DecidableEq, Repr

namespace Template

/-- One pass over conditionals, then loops, then raw markup. -/
def blockPass (process : Pass) : Pass := fun text registry =>
  let (text, registry) := replaceConditionals process text registry
  let (text, registry) := replaceLoops process text registry
  replaceRawMarkup text registry

/-- Repeats a pass until one adds no directive, at most `limit` times. -/
def repeatPass (pass : Pass) : Nat → Pass
  | 0, text, registry => (text, registry)
  | limit + 1, text, registry =>
    let (next, grown) := pass text registry
    if grown.size = registry.size then (next, grown) else repeatPass pass limit next grown

/-- Processes a fragment whose bodies are nested at most `depth` levels deep. -/
def processAt (limit : Nat) : Nat → Pass
  | 0, text, registry => (text, registry)
  | depth + 1, text, registry =>
    let (text, registry) := repeatPass (blockPass (processAt limit depth)) limit text registry
    replaceInterpolations text registry

/-- Processes a fragment. A body has fewer opening braces than the fragment around it, and a text
without opening braces has no directives, so their number bounds the depth. -/
def processFragment (limit : Nat) : Pass := fun text registry =>
  processAt limit (text.count '{') text registry

/-- Processes a template. -/
def process (settings : Settings) (text : Text) : ProcessedTemplate :=
  let (fragment, registry) := processFragment settings.passLimit text #[]
  let (content, directives) := replaceComponents settings.runtimeAttribute fragment registry
  { content, directives }

end Template

namespace ProcessedTemplate

/-- The directive that a placeholder refers to, if its index exists and its marker fits. -/
def resolve? (template : ProcessedTemplate) (placeholder : Placeholder) : Option Directive :=
  template.directives[placeholder.index]?.filter fun directive =>
    directive.kind.marker = placeholder.marker

/-- Every text that can hold placeholders: the processed text, then those of each directive. -/
def hosts (template : ProcessedTemplate) : List Text :=
  template.content :: template.directives.toList.flatMap fun directive => directive.kind.hosts

/-- The placeholders in all these texts, in order. -/
def placeholders (template : ProcessedTemplate) : List Placeholder.Found :=
  template.hosts.flatMap Placeholder.findAll

end ProcessedTemplate

end ComponentFile
