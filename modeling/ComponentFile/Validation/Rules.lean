import ComponentFile.Block.Extraction
import ComponentFile.Template.Processing
import ComponentFile.Validation.Code
import ComponentFile.Validation.Markup

/-!
# Structural rules

Checking never stops at a finding. Blocks that occur more than once come first, then what the rules
say about each block that is present, in the order of the kinds.
-/

namespace ComponentFile.Validation

/-- How often a kind of block occurs. The template runs to the last closing tag, so its occurrences
are counted apart, each to the next closing tag. -/
def blockCount (source : Text) (extraction : Extraction) (kind : BlockKind) : Nat :=
  match kind with
  | .template => (Extraction.elements Extraction.templateName source).length
  | kind => ((extraction.get? kind).map Block.occurrences).getD 0

/-- The findings about blocks that occur more than once. -/
def checkDuplicates (source : Text) (extraction : Extraction) : List Finding :=
  BlockKind.all.filterMap fun kind =>
    let count := blockCount source extraction kind
    if 1 < count then some (.duplicateBlock kind count) else none

/-- The byte offset in the file at which the content of a block starts: where it first occurs in the
span of the block, or else the start of the span. -/
def contentOffset (source : Text) (block : Block) : Nat :=
  match Text.slice? block.start block.stop source >>= Text.cut? block.content with
  | some (before, _) => block.start + before.byteSize
  | none => block.start

/-- The findings about one directive. -/
def checkDirective (settings : Settings) (directive : Directive) : List Finding :=
  match directive.kind with
  | .interpolation _ | .rawMarkup _ => []
  | .conditional condition branches =>
    (if condition.isBlankText then [.emptyCondition directive.index] else []) ++
      branches.filterMap fun branch =>
        match branch.kind with
        | .elseIf condition =>
          if condition.isBlankText then some (.emptyBranchCondition directive.index) else none
        | _ => none
  | .loop iterable item _ _ _ =>
    if iterable.isBlankText || item.isBlankText then [.invalidLoop directive.index] else []
  | .component tag runtime _ _ =>
    if settings.supportsRuntime runtime then []
    else [.unsupportedRuntime tag runtime settings.supportedRuntimes]

/-- The findings about the directives of a template. -/
def checkDirectives (settings : Settings) (template : ProcessedTemplate) : List Finding :=
  template.directives.toList.flatMap (checkDirective settings)

/-- The findings about one block. -/
def checkBlock (settings : Settings) (source : Text) (template : Option ProcessedTemplate)
    (kind : BlockKind) (block : Block) : List Finding :=
  match kind with
  | .backend => checkBackend settings block.content
  | .uiLogic => checkScript settings (contentOffset source block) block.content
  | .template =>
    checkMarkup (contentOffset source block) block.content ++
      (template.map (checkDirectives settings)).getD []
  | .style => checkStyle block.content

/-- The findings about a file with the given blocks and processed template. -/
def findings (settings : Settings) (source : Text) (extraction : Extraction)
    (template : Option ProcessedTemplate) : List Finding :=
  checkDuplicates source extraction ++
    extraction.present.flatMap fun (kind, block) => checkBlock settings source template kind block

end ComponentFile.Validation
