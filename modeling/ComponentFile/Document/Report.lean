import ComponentFile.Document.Statistics

/-!
# Reports

A document for a human reader: a report in several parts, or one line for each diagnostic.
-/

namespace ComponentFile.Document

/-- One line for each name with its count. -/
def countLines (counts : Dictionary String Nat) : List String :=
  counts.map fun (name, count) => s!"- {name}: {count}"

/-- The lines that detail the diagnostic with the given number. -/
def detailLines (number : Nat) (diagnostic : Diagnostic) : List String :=
  let severity := diagnostic.severity.name
  let kind := diagnostic.kind.name
  let message := diagnostic.message
  s!"{number}. [{severity}] {kind}: {message}" ::
    match diagnostic.block with
    | some block =>
      let name := block.name
      [s!"   Section: {name}"]
    | none => []

/-- The lines that detail the diagnostics, numbered from `number` on. -/
def detailsFrom : Nat → List Diagnostic → List String
  | _, [] => []
  | number, diagnostic :: rest => detailLines number diagnostic ++ detailsFrom (number + 1) rest

variable {Tree : Type}

/-- The lines of the report on a document. -/
def reportLines (document : Document Tree) : List String :=
  let statistics := Statistics.of document
  let total (what : String) (count : Nat) : String := s!"- Total {what}: {count}"
  let structureLines :=
    ["=== RSX Parse Report ===", "", "Structure:", total "sections" statistics.totalSections] ++
      countLines statistics.sectionCounts
  let directiveLines :=
    if statistics.totalDirectives = 0 then []
    else
      ["", "Template directives:", total "directives" statistics.totalDirectives] ++
        countLines statistics.directiveCounts
  let diagnosticLines :=
    if statistics.totalDiagnostics = 0 then ["", "No errors found"]
    else
      ["", "Errors:", total "errors" statistics.totalDiagnostics] ++
        countLines statistics.diagnosticCounts ++
        ["", "Details:"] ++ detailsFrom 1 document.diagnostics
  structureLines ++ directiveLines ++ diagnosticLines

/-- The report on a document: its blocks, its directives, and what there is to mend. -/
def report (document : Document Tree) : String :=
  String.join (document.reportLines.map (· ++ "\n"))

/-- A diagnostic on one line, with its position at the end. -/
def diagnosticLine (diagnostic : Diagnostic) : String :=
  let kind := diagnostic.kind.name
  let message := diagnostic.message
  let position := (diagnostic.position.map Position.describe).getD "Unknown position"
  s!"{kind}: {message} ({position})"

/-- The diagnostics, one line each. -/
def formatDiagnostics (diagnostics : List Diagnostic) : String :=
  String.intercalate "\n" (diagnostics.map diagnosticLine)

end ComponentFile.Document
