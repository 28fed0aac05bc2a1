import ComponentFile.Document.Reading
import ComponentFile.Proofs.Block.Assembly
import ComponentFile.Proofs.Document.Rules

/-!
# Documents of assembled files

A file written block by block is read as one section per block. Among its diagnostics a repeated
block is reported by nobody but an analyzer: the rules report one only for a kind that occurs more
than once.
-/

namespace ComponentFile

namespace Validation

private theorem kind_ne_of_mem_checkBlock {settings : Settings} {source : Text}
    {template : Option ProcessedTemplate} {kind : BlockKind} {block : Block} {finding : Finding}
    (h : finding ∈ checkBlock settings source template kind block) :
    finding.kind ≠ .duplicateSection := by
  cases kind with
  | backend => exact ne_of_mem_of_not_mem (kind_mem_of_mem_checkBackend h) (by decide)
  | uiLogic => exact ne_of_mem_of_not_mem (kind_mem_of_mem_checkScript h) (by decide)
  | template =>
    rcases List.mem_append.mp h with h | h
    · exact ne_of_mem_of_not_mem (kind_mem_of_mem_checkMarkup h) (by decide)
    · cases template with
      | none => cases h
      | some template =>
        obtain ⟨directive, -, h⟩ := List.mem_flatMap.mp h
        rcases kind_mem_or_of_mem_checkDirective h with hkind | ⟨component, -, hfinding⟩
        · exact ne_of_mem_of_not_mem hkind (by decide)
        · rw [kind_of_runtimeFinding? hfinding]
          decide
  | style => exact ne_of_mem_of_not_mem (kind_mem_of_mem_checkStyle h) (by decide)

/-- A repeated block is reported only of a kind that occurs more than once. -/
private theorem exists_blockCount_of_mem_findings {settings : Settings} {source : Text}
    {extraction : Extraction} {template : Option ProcessedTemplate} {finding : Finding}
    (h : finding ∈ findings settings source extraction template)
    (hkind : finding.kind = .duplicateSection) :
    ∃ kind, 1 < blockCount source extraction kind := by
  rw [findings, List.mem_append, List.mem_flatMap] at h
  rcases h with h | ⟨⟨kind, block⟩, -, h⟩
  · rw [checkDuplicates, List.mem_filterMap] at h
    obtain ⟨kind, -, h⟩ := h
    dsimp only at h
    split_ifs at h with hcount
    exact ⟨kind, hcount⟩
  · exact absurd hkind (kind_ne_of_mem_checkBlock h)

/-- No kind occurs more than once in an assembled file. -/
theorem blockCount_assemble {blocks : List WrittenBlock}
    (hkinds : (blocks.map WrittenBlock.kind).Nodup) (hclean : ∀ written ∈ blocks, written.Clean)
    (kind : BlockKind) :
    blockCount (WrittenBlock.assemble blocks) (Extraction.of (WrittenBlock.assemble blocks))
      kind ≤ 1 := by
  have hfound : (((Extraction.of (WrittenBlock.assemble blocks)).get? kind).map
      Block.occurrences).getD 0 ≤ 1 := by
    rcases Extraction.get?_assemble_cases hkinds hclean kind with
      ⟨-, hget⟩ | ⟨-, block, hget, hcount⟩
    · rw [hget]
      exact Nat.zero_le 1
    · rw [hget, Option.map_some, Option.getD_some, hcount]
  cases kind with
  | template => exact Extraction.elements_template_assemble hkinds hclean
  | backend => exact hfound
  | uiLogic => exact hfound
  | style => exact hfound

end Validation

namespace Document

variable {Tree : Type}

/-- The analyzer of a block can give this answer to its text. -/
def Answers {σ : Type} (analyze : BlockKind → Text → StateM σ (Analysis Tree)) (part : Section Tree)
    (analysis : Analysis Tree) : Prop :=
  ∃ seen, (analyze part.kind part.analyzed seen).1 = analysis

/-- The diagnostic is one that the analyzer of the block reports about its text. -/
def Reports {σ : Type} (analyze : BlockKind → Text → StateM σ (Analysis Tree)) (part : Section Tree)
    (diagnostic : Diagnostic) : Prop :=
  ∃ reported tree, Answers analyze part (.ok reported tree) ∧
    ∃ found ∈ reported, diagnostic = { found with block := some part.kind }

section

variable {σ : Type} (settings : Settings) (analyze : BlockKind → Text → StateM σ (Analysis Tree))

/-- Analyzing blocks in a row keeps the blocks and gives each an answer of its analyzer. -/
private theorem mapM_analyze (parts : List (Section Tree)) (state : σ) :
    let analyses := (parts.mapM (fun part : Section Tree => do
      let analysis ← analyze part.kind part.analyzed
      return (part, analysis)) state).1
    analyses.map Prod.fst = parts ∧ ∀ pair ∈ analyses, Answers analyze pair.1 pair.2 := by
  induction parts generalizing state with
  | nil => exact ⟨rfl, fun pair hpair => nomatch hpair⟩
  | cons part parts ih =>
    obtain ⟨hparts, hanswers⟩ := ih (analyze part.kind part.analyzed state).2
    rw [List.mapM_cons]
    refine ⟨congrArg (part :: ·) hparts, fun pair hpair => ?_⟩
    rcases List.mem_cons.mp hpair with rfl | hpair
    · exact ⟨state, rfl⟩
    · exact hanswers pair hpair

/-- A document is made of the blocks found, each with an answer of its analyzer. -/
theorem exists_analyses (source : Text) (state : σ) :
    ∃ analyses : List (Section Tree × Analysis Tree),
      (read settings analyze source state).1 =
        ofAnalyses settings source (Extraction.of source) analyses ∧
      analyses.map Prod.fst =
        (Extraction.of source).present.map
          (fun (kind, block) => Section.ofBlock settings kind block) ∧
      ∀ pair ∈ analyses, Answers analyze pair.1 pair.2 :=
  ⟨_, rfl, mapM_analyze analyze _ state⟩

/-- The sections of a document come from the blocks found, in order. -/
theorem sections_read (source : Text) (state : σ) :
    (read settings analyze source state).1.sections.map Section.kind =
      (Extraction.of source).present.map Prod.fst := by
  obtain ⟨analyses, hread, hparts, -⟩ := exists_analyses settings analyze source state
  have hkind (pair : Section Tree × Analysis Tree) :
      (pair.1.withAnalysis pair.2).kind = pair.1.kind := by
    cases hp : pair.2 <;> rfl
  calc
    (read settings analyze source state).1.sections.map Section.kind
      = (analyses.map Prod.fst).map Section.kind := by
        rw [hread, ofAnalyses, List.map_map, List.map_map]
        exact List.map_congr_left fun pair _ => hkind pair
    _ = (Extraction.of source).present.map Prod.fst := by
        rw [hparts, List.map_map]
        rfl

/-- What a document reports about the analysis of a block is a failure or one of the analyzer's
reports. -/
private theorem kind_of_mem_report {part : Section Tree} {analysis : Analysis Tree}
    (h : Answers analyze part analysis) {diagnostic : Diagnostic}
    (hmem : diagnostic ∈ part.report analysis) :
    diagnostic.kind = .analyzerFailure part.kind ∨
      diagnostic ∈ (part.withAnalysis analysis).diagnostics ∧
        Reports analyze (part.withAnalysis analysis) diagnostic := by
  cases analysis with
  | error error =>
    left
    rw [Section.report, List.mem_singleton] at hmem
    rw [hmem]
  | ok reported tree =>
    right
    refine ⟨hmem, reported, tree, h, ?_⟩
    obtain ⟨found, hfound, rfl⟩ := List.mem_map.mp hmem
    exact ⟨found, hfound, rfl⟩

private theorem analyzerFailure_ne (kind : BlockKind) :
    DiagnosticKind.analyzerFailure kind ≠ .duplicateSection := by
  cases kind <;> decide

/-- A repeated block is reported by an analyzer or of a kind that occurs more than once. -/
theorem duplicateSection_of_mem_read {source : Text} {state : σ} {diagnostic : Diagnostic}
    (h : diagnostic ∈ (read settings analyze source state).1.diagnostics)
    (hkind : diagnostic.kind = .duplicateSection) :
    (∃ part ∈ (read settings analyze source state).1.sections,
        diagnostic ∈ part.diagnostics ∧ Reports analyze part diagnostic) ∨
      ∃ kind, 1 < Validation.blockCount source (Extraction.of source) kind := by
  obtain ⟨analyses, hread, -, hanswers⟩ := exists_analyses settings analyze source state
  rw [hread] at h ⊢
  rcases List.mem_append.mp h with h | h
  · obtain ⟨pair, hpair, h⟩ := List.mem_flatMap.mp h
    rcases kind_of_mem_report analyze (hanswers pair hpair) h with hfailed | hreported
    · exact absurd (hfailed.symm.trans hkind) (analyzerFailure_ne _)
    · exact .inl ⟨_, List.mem_map.mpr ⟨pair, hpair, rfl⟩, hreported⟩
  · obtain ⟨finding, hfinding, rfl⟩ := List.mem_map.mp h
    exact .inr (Validation.exists_blockCount_of_mem_findings hfinding hkind)

end

/-- Blocks that are written to a file are found again, each with its content and exact span, and
nothing else is found. The document of the file has one section for each of them, in the order of
the kinds, and a repeated block is among its diagnostics only if the analyzer of a section reports
one. -/
theorem read_assemble {Tree σ : Type} {blocks : List WrittenBlock}
    (hkinds : (blocks.map WrittenBlock.kind).Nodup) (hclean : ∀ written ∈ blocks, written.Clean)
    (settings : Settings) (analyze : BlockKind → Text → StateM σ (Analysis Tree)) (state : σ) :
    let source := WrittenBlock.assemble blocks
    let document := (read settings analyze source state).1
    (∀ before written after, blocks = before ++ written :: after →
      (Extraction.of source).get? written.kind =
        some (written.block (WrittenBlock.assemble before).byteSize)) ∧
    (∀ kind ∉ blocks.map WrittenBlock.kind, (Extraction.of source).get? kind = none) ∧
    document.sections.map Section.kind =
      BlockKind.all.filter (fun kind => kind ∈ blocks.map WrittenBlock.kind) ∧
    ∀ diagnostic ∈ document.diagnostics, diagnostic.kind = .duplicateSection →
      ∃ part ∈ document.sections, diagnostic ∈ part.diagnostics ∧
        Reports analyze part diagnostic := by
  refine ⟨fun before written after h => Extraction.get?_assemble hkinds hclean h,
    fun kind h => Extraction.get?_assemble_of_not_mem hclean h, ?_, fun diagnostic h hkind => ?_⟩
  · rw [sections_read, Extraction.present_assemble hkinds hclean]
  · rcases duplicateSection_of_mem_read settings analyze h hkind with h | ⟨kind, hcount⟩
    · exact h
    · have hbound := Validation.blockCount_assemble hkinds hclean kind
      omega

/-- Styling and then a backend are read as two sections, the backend first, and nothing is
repeated. -/
theorem read_assemble_two :
    (read {} (fun _ _ => pure (.ok []) : BlockKind → Text → StateM Unit Analysis)
        (WrittenBlock.assemble [⟨.style, ['p']⟩, ⟨.backend, ['x', ' ']⟩]) ()).1.sections.map
            Section.kind =
          [.backend, .style] ∧
      (Extraction.of (WrittenBlock.assemble [⟨.style, ['p']⟩, ⟨.backend, ['x', ' ']⟩])).get?
          .backend =
        some { content := ['x', ' '], start := 19, stop := 29, occurrences := 1 } := by
  have hclean : ∀ written ∈ [(⟨.style, ['p']⟩ : WrittenBlock), ⟨.backend, ['x', ' ']⟩],
      written.Clean := by
    intro written hwritten
    simp only [List.mem_cons, List.not_mem_nil, or_false] at hwritten
    rcases hwritten with rfl | rfl <;>
      exact ⟨by rintro (_ | _ | _ | _) h <;> first | exact absurd rfl h | decide,
        by rintro (_ | _ | _ | _) h <;> first | exact absurd rfl h | decide, by decide, by decide⟩
  obtain ⟨hfound, -, hsections, -⟩ := read_assemble (by decide) hclean {}
    (fun _ _ => pure (.ok []) : BlockKind → Text → StateM Unit Analysis) ()
  exact ⟨hsections, hfound [⟨.style, ['p']⟩] ⟨.backend, ['x', ' ']⟩ [] rfl⟩

/-- An analyzer that reports a repeated block is heard, though the file has a single block. -/
theorem not_forall_kind_ne_duplicateSection :
    ¬∀ diagnostic ∈ (read {}
        (fun _ _ =>
          pure (.ok [{ kind := .duplicateSection, severity := .error, message := "again" }]) :
          BlockKind → Text → StateM Unit Analysis)
        (WrittenBlock.assemble [⟨.backend, ['x']⟩]) ()).1.diagnostics, diagnostic.kind ≠
          .duplicateSection := by
  intro h
  have hclean : ∀ written ∈ [(⟨.backend, ['x']⟩ : WrittenBlock)], written.Clean := by
    intro written hwritten
    rw [List.mem_singleton.mp hwritten]
    exact ⟨by rintro (_ | _ | _ | _) h <;> first | exact absurd rfl h | decide,
      by rintro (_ | _ | _ | _) h <;> first | exact absurd rfl h | decide, by decide, by decide⟩
  have hpresent : (Extraction.of (WrittenBlock.assemble [⟨.backend, ['x']⟩])).present =
      [(.backend, { content := ['x'], start := 0, stop := 9, occurrences := 1 })] := by
    have hbackend := Extraction.get?_assemble (by decide) hclean
      (show [(⟨.backend, ['x']⟩ : WrittenBlock)] = [] ++ ⟨.backend, ['x']⟩ :: [] from rfl)
    have hother (kind : BlockKind) (hkind : kind ≠ .backend) :
        (Extraction.of (WrittenBlock.assemble [⟨.backend, ['x']⟩])).get? kind = none :=
      Extraction.get?_assemble_of_not_mem hclean (by simpa using hkind)
    simp only [Extraction.present, BlockKind.all, List.filterMap_cons, hbackend,
      hother .uiLogic (by decide), hother .template (by decide), hother .style (by decide),
      Option.map_none, Option.map_some, List.filterMap_nil]
    decide
  refine h { kind := .duplicateSection, severity := .error, message := "again",
             block := some .backend } ?_ rfl
  rw [read, hpresent]
  exact List.mem_append_left _ List.mem_cons_self

end Document

end ComponentFile
