import ComponentFile.Diagnostic
import ComponentFile.Template.Processing

/-!
# Documents

What is known about a component file once it has been read: its text, its blocks in the order of
their kinds, the processed template, and everything there is to report.

A block also keeps the syntax tree that its analyzer made. Nothing looks into a tree, so trees can
be of any type `Tree`; where none is named there are no trees.
-/

namespace ComponentFile

/-- A block of a document. -/
structure Section (Tree : Type) where
  /-- The kind of the block. -/
  kind : BlockKind
  /-- The inner text. -/
  content : Text
  /-- The byte offset of the opening delimiter. -/
  start : Nat
  /-- The byte offset just past the closing delimiter. -/
  stop : Nat
  /-- The tree that the analyzer of the block made, if it made one. -/
  tree : Option Tree
  /-- What the analyzer of the block reported. -/
  diagnostics : List Diagnostic
  /-- The processed text and its directives, for a template. -/
  template : Option ProcessedTemplate
  deriving DecidableEq, Repr

/-- A component file that has been read. -/
structure Document (Tree : Type := Empty) where
  /-- The text of the file; empty if the document was not read from one. -/
  source : Text := []
  /-- The blocks that are present, in the order of their kinds. -/
  sections : List (Section Tree)
  /-- What there is to report: what the analyzers say, block by block, and then broken rules. -/
  diagnostics : List Diagnostic
  deriving DecidableEq, Repr

namespace Document

variable {Tree : Type}

/-- The first block of the given kind. -/
def section? (document : Document Tree) (kind : BlockKind) : Option (Section Tree) :=
  document.sections.find? fun part => part.kind = kind

/-- The directives of the template; none without a template. -/
def directives (document : Document Tree) : List Directive :=
  match document.section? .template >>= Section.template with
  | some template => template.directives.toList
  | none => []

/-- Whether something reported is an error. -/
def hasErrors (document : Document Tree) : Bool :=
  document.diagnostics.any fun diagnostic => diagnostic.severity = .error

end Document

end ComponentFile
