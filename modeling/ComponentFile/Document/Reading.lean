import ComponentFile.Document.Basic
import ComponentFile.Validation.Rules

/-!
# Reading documents

A file is cut into its blocks, the template is processed, the analyzer of each block present is
called once, in the order of the kinds, and the structural rules are checked. Reading always gives a
document: a block whose analyzer fails is kept, and the failure is reported. Analyzers are effects
of any monad; the template's one is given the processed text.
-/

namespace ComponentFile

/-- Why an analyzer has no result. -/
inductive AnalyzerError where
  /-- Its grammar could not be loaded. -/
  | language (message : String)
  /-- It produced no tree. -/
  | noTree
  /-- Any other failure. -/
  | failed (message : String)
  deriving DecidableEq, Repr

/-- The wording of an analyzer's failure. -/
def AnalyzerError.message : AnalyzerError → String
  | .language message => s!"could not load grammar: {message}"
  | .noTree => "parser produced no tree"
  | .failed message => message

/-- What an analyzer makes of the text of a block. -/
inductive Analysis (Tree : Type := Empty) where
  /-- It has found something to report, or nothing, and it may have made a tree. -/
  | ok (diagnostics : List Diagnostic) (tree : Option Tree := none)
  /-- It has failed. -/
  | error (cause : AnalyzerError)
  deriving DecidableEq, Repr

variable {Tree : Type}

namespace Section

/-- A block that no analyzer has seen yet; a template is processed. -/
def ofBlock (settings : Settings) (kind : BlockKind) (block : Block) : Section Tree where
  kind
  content := block.content
  start := block.start
  stop := block.stop
  tree := none
  diagnostics := []
  template := if kind = .template then some (Template.process settings block.content) else none

/-- The text that the analyzer of a block is given. -/
def analyzed (part : Section Tree) : Text :=
  match part.template with
  | some template => template.content
  | none => part.content

/-- The block with what its analyzer reported and the tree that it made; a failed analyzer reports
nothing and makes no tree. -/
def withAnalysis (part : Section Tree) : Analysis Tree → Section Tree
  | .ok diagnostics tree =>
    { part with
      tree
      diagnostics := diagnostics.map fun found => { found with block := some part.kind } }
  | .error _ => part

/-- What a document reports about the analysis of a block. -/
def report (part : Section Tree) : Analysis Tree → List Diagnostic
  | .ok diagnostics tree => (part.withAnalysis (.ok diagnostics tree)).diagnostics
  | .error error =>
    let name := part.kind.name
    let cause := error.message
    [{ kind := .analyzerFailure part.kind, severity := .error
       message := s!"Failed to analyse {name} section: {cause}"
       position := some (.byte part.start), block := some part.kind }]

end Section

namespace Document

/-- The document of a file whose blocks have been analyzed. -/
def ofAnalyses (settings : Settings) (source : Text) (extraction : Extraction)
    (analyses : List (Section Tree × Analysis Tree)) : Document Tree :=
  let sections := analyses.map fun (part, analysis) => part.withAnalysis analysis
  let findings :=
    Validation.findings settings source extraction (sections.findSome? Section.template)
  { source, sections
    diagnostics := (analyses.flatMap fun (part, analysis) => part.report analysis) ++
      findings.map Finding.diagnostic }

/-- Reads a file; `analyze` is called for each block present, in order. -/
def read {m : Type → Type} [Monad m] (settings : Settings)
    (analyze : BlockKind → Text → m (Analysis Tree)) (source : Text) : m (Document Tree) := do
  let extraction := Extraction.of source
  let parts := extraction.present.map fun (kind, block) => Section.ofBlock settings kind block
  let analyses ← parts.mapM fun part => do
    let analysis ← analyze part.kind part.analyzed
    return (part, analysis)
  return ofAnalyses settings source extraction analyses

end Document

end ComponentFile
