import ComponentFile.Dictionary
import ComponentFile.Document.Basic

/-!
# Statistics

Counts over the blocks, diagnostics and directives of a document, by name.
-/

namespace ComponentFile

/-- The counts of a document. -/
structure Statistics where
  /-- The number of blocks. -/
  totalSections : Nat
  /-- The number of blocks of each kind. -/
  sectionCounts : Dictionary String Nat
  /-- The number of diagnostics. -/
  totalDiagnostics : Nat
  /-- The number of diagnostics of each category. -/
  diagnosticCounts : Dictionary String Nat
  /-- The number of directives. -/
  totalDirectives : Nat
  /-- The number of directives of each kind. -/
  directiveCounts : Dictionary String Nat
  deriving DecidableEq, Repr

/-- Counts everything in a document. -/
def Statistics.of {Tree : Type} (document : Document Tree) : Statistics where
  totalSections := document.sections.length
  sectionCounts := Dictionary.tally (document.sections.map fun part => part.kind.name)
  totalDiagnostics := document.diagnostics.length
  diagnosticCounts := Dictionary.tally (document.diagnostics.map fun found => found.kind.name)
  totalDirectives := document.directives.length
  directiveCounts :=
    Dictionary.tally (document.directives.map fun directive => directive.kind.typeName)

end ComponentFile
