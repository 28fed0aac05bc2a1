import ComponentFile.Document.Reading
import Mathlib.Data.List.Forall2
import Mathlib.Data.List.Nodup

/-!
# What one analyzer can change

Reading a file calls the analyzer of each block present once, in the order of the kinds, and the
document is put together from the answers alone. So two sets of analyzers that behave alike on all
kinds but one lead to documents that differ in the tree and the diagnostics of that one section and
in one stretch of the list of diagnostics.
-/

namespace ComponentFile

namespace Extraction

/-- The kinds of the blocks present, in the order of the kinds. -/
theorem map_fst_present (extraction : Extraction) :
    extraction.present.map Prod.fst =
      BlockKind.all.filter fun kind => (extraction.get? kind).isSome := by
  rw [present]
  induction BlockKind.all with
  | nil => rfl
  | cons kind kinds ih =>
    cases hget : extraction.get? kind with
    | none => simpa [hget] using ih
    | some block => simpa [hget] using ih

/-- No kind is present twice. -/
theorem nodup_map_fst_present (extraction : Extraction) :
    (extraction.present.map Prod.fst).Nodup := by
  rw [map_fst_present]
  apply List.Nodup.filter
  decide

end Extraction

namespace Document

variable {Tree : Type}

/-! ## One reading -/

/-- The blocks present as sections that no analyzer has seen, in the order of the kinds. -/
def parts (settings : Settings) (source : Text) : List (Section Tree) :=
  (Extraction.of source).present.map fun (kind, block) => Section.ofBlock settings kind block

/-- What the analyzers are asked, in order: each block present with its content, the template with
its processed text. -/
def requests (settings : Settings) (source : Text) : List (BlockKind × Text) :=
  (Extraction.of source).present.map fun (kind, block) =>
    (kind, if kind = .template then (Template.process settings block.content).content
      else block.content)

/-- The processed template of a file, if it has a template. -/
def processedTemplate (settings : Settings) (source : Text) : Option ProcessedTemplate :=
  (Extraction.of source).template.map fun block => Template.process settings block.content

/-- Asks the analyzers one request after the other. -/
def ask {σ : Type} (analyze : BlockKind → Text → StateM σ (Analysis Tree))
    (requests : List (BlockKind × Text)) :
    StateM σ (List (Analysis Tree)) :=
  requests.mapM (Function.uncurry analyze)

/-- What a document says about the analysis of one block: what its analyzer found, all of it about
this kind of block, or one failure at the start of the block. -/
inductive IsSegment (part : Section Tree) : Analysis Tree → List Diagnostic → Prop
  | reported (found : List Diagnostic) (tree : Option Tree) :
    IsSegment part (.ok found tree)
      (found.map fun diagnostic => { diagnostic with block := some part.kind })
  | failed (error : AnalyzerError) (diagnostic : Diagnostic)
    (hkind : diagnostic.kind.name = part.kind.name ++ "_parse_error")
    (hseverity : diagnostic.severity = .error)
    (hposition : diagnostic.position = some (.byte part.start))
    (hblock : diagnostic.block = some part.kind) :
    IsSegment part (.error error) [diagnostic]

/-- A reading of a file from one state of the analyzers to another, with the answers they gave. -/
structure Reading {σ : Type} (settings : Settings) (source : Text)
    (analyze : BlockKind → Text → StateM σ (Analysis Tree)) (start : σ)
    (analyses : List (Section Tree × Analysis Tree)) (document : Document Tree) (final : σ) :
    Prop where
  /-- The sections are the blocks present. -/
  parts_eq : analyses.map Prod.fst = parts settings source
  /-- Each kind that is present comes once, in the order of the kinds. -/
  kinds_eq : analyses.map (fun pair => pair.1.kind) =
    BlockKind.all.filter fun kind => ((Extraction.of source).get? kind).isSome
  /-- The analyzers are asked the requests, one after the other, and nothing else. -/
  calls : ask analyze (requests settings source) start = (analyses.map Prod.snd, final)
  /-- The document keeps the text. -/
  source_eq : document.source = source
  /-- A section keeps everything that was known before its analysis. -/
  sections_eq : document.sections = analyses.map fun (part, analysis) => part.withAnalysis analysis
  /-- The diagnostics are those about the analysis of each block in turn, and then the broken
  rules. -/
  diagnostics_eq : ∃ segments : List (List Diagnostic),
    List.Forall₂ (fun pair segment => IsSegment pair.1 pair.2 segment) analyses segments ∧
    document.diagnostics = segments.flatten ++
      (Validation.findings settings source (Extraction.of source)
        (processedTemplate settings source)).map
        Finding.diagnostic

/-- The text that an analyzer is given is what is asked about its block. -/
theorem map_parts_eq_requests (Tree : Type) (settings : Settings) (source : Text) :
    (parts settings source).map (fun part : Section Tree => (part.kind, part.analyzed)) =
      requests settings source := by
  rw [parts, requests, List.map_map]
  refine List.map_congr_left fun ⟨kind, block⟩ _ => ?_
  cases kind <;> rfl

private theorem map_kind_parts (Tree : Type) (settings : Settings) (source : Text) :
    (parts settings source).map (fun part : Section Tree => part.kind) =
      (Extraction.of source).present.map Prod.fst := by
  rw [parts, List.map_map]
  rfl

section

variable {m : Type → Type} [Monad m] [LawfulMonad m]

/-- Pairing each value with an answer asks for the answers in a row. -/
private theorem mapM_pair {α β : Type} (ask : α → m β) (values : List α) :
    (values.mapM fun value => do
      let answer ← ask value
      return (value, answer)) = (fun answers => values.zip answers) <$> values.mapM ask := by
  induction values with
  | nil => simp
  | cons value values ih =>
    rw [List.mapM_cons, List.mapM_cons, ih]
    simp only [map_eq_pure_bind, bind_assoc, pure_bind, List.zip_cons_cons]

/-- Reading a file is asking the requests in order and putting the document together from the
answers. -/
private theorem read_eq_map_mapM (settings : Settings)
    (analyze : BlockKind → Text → m (Analysis Tree)) (source : Text) :
    read settings analyze source =
      (fun answers =>
        ofAnalyses settings source (Extraction.of source) ((parts settings source).zip answers)) <$>
      (requests settings source).mapM (Function.uncurry analyze) := by
  have hpair := mapM_pair (fun part : Section Tree => analyze part.kind part.analyzed)
    (parts settings source)
  rw [← map_parts_eq_requests Tree, List.mapM_map]
  change (do
    let analyses ← (parts settings source).mapM fun part : Section Tree => do
      let analysis ← analyze part.kind part.analyzed
      return (part, analysis)
    return ofAnalyses settings source (Extraction.of source) analyses) = _
  rw [hpair, bind_pure_comp, Functor.map_map]
  rfl

end

/-- What is said about the analysis of a block is a segment. -/
theorem isSegment_report (part : Section Tree) (analysis : Analysis Tree) :
    IsSegment part analysis (part.report analysis) := by
  cases analysis with
  | ok found tree => exact .reported found tree
  | error error =>
    refine .failed error _ ?_ rfl rfl rfl
    cases part.kind <;> rfl

/-- The template of a document is the processed template of the file. -/
private theorem findSome?_template_parts (Tree : Type) (settings : Settings) (source : Text) :
    (parts settings source).findSome? (fun part : Section Tree => part.template) =
      processedTemplate settings source := by
  rw [parts, processedTemplate]
  obtain ⟨backend, uiLogic, template, style⟩ := Extraction.of source
  cases backend <;> cases uiLogic <;> cases template <;> cases style <;> rfl

/-- An analysis changes nothing in a section but its tree and its diagnostics. -/
theorem withAnalysis_eq (part : Section Tree) (analysis : Analysis Tree) :
    part.withAnalysis analysis =
      { part with
        tree := (part.withAnalysis analysis).tree
        diagnostics := (part.withAnalysis analysis).diagnostics } := by
  cases analysis <;> rfl

/-- An analysis keeps the template of a section. -/
theorem template_withAnalysis (part : Section Tree) (analysis : Analysis Tree) :
    (part.withAnalysis analysis).template = part.template := by
  rw [withAnalysis_eq]

/-- The first request is asked first. -/
theorem ask_cons {σ : Type} (analyze : BlockKind → Text → StateM σ (Analysis Tree))
    (request : BlockKind × Text) (requests : List (BlockKind × Text)) (start : σ) :
    ask analyze (request :: requests) start =
      let answer := analyze request.1 request.2 start
      let others := ask analyze requests answer.2
      (answer.1 :: others.1, others.2) := by
  rw [ask, List.mapM_cons]
  rfl

/-- Each request gets one answer. -/
theorem length_ask {σ : Type} (analyze : BlockKind → Text → StateM σ (Analysis Tree))
    (requests : List (BlockKind × Text)) (start : σ) :
    (ask analyze requests start).1.length = requests.length := by
  induction requests generalizing start with
  | nil => rfl
  | cons request requests ih =>
    rw [ask_cons]
    exact congrArg (· + 1) (ih (analyze request.1 request.2 start).2)

/-- The answers that the analyzers give to the requests of a file, each with its section. -/
def analysesOf {σ : Type} (settings : Settings)
    (analyze : BlockKind → Text → StateM σ (Analysis Tree)) (source : Text) (start : σ) :
    List (Section Tree × Analysis Tree) :=
  (parts settings source).zip (ask analyze (requests settings source) start).1

/-- There is an answer about each part. -/
theorem map_fst_analysesOf {σ : Type} (settings : Settings)
    (analyze : BlockKind → Text → StateM σ (Analysis Tree)) (source : Text) (start : σ) :
    (analysesOf settings analyze source start).map Prod.fst = parts settings source := by
  apply List.map_fst_zip
  refine Nat.le_of_eq ?_
  rw [length_ask, ← map_parts_eq_requests Tree, List.length_map]

private theorem map_snd_analysesOf {σ : Type} (settings : Settings)
    (analyze : BlockKind → Text → StateM σ (Analysis Tree)) (source : Text) (start : σ) :
    (analysesOf settings analyze source start).map Prod.snd =
      (ask analyze (requests settings source) start).1 := by
  apply List.map_snd_zip
  refine Nat.le_of_eq ?_
  rw [length_ask, ← map_parts_eq_requests Tree, List.length_map]

/-- Reading gives the document of the answers, and leaves the analyzers as the requests leave
them. -/
theorem read_eq_ofAnalyses {σ : Type} (settings : Settings)
    (analyze : BlockKind → Text → StateM σ (Analysis Tree)) (source : Text) (start : σ) :
    read settings analyze source start =
      (ofAnalyses settings source (Extraction.of source) (analysesOf settings analyze source start),
        (ask analyze (requests settings source) start).2) := by
  rw [read_eq_map_mapM]
  rfl

/-- The diagnostics of a document are those about each analysis and then the broken rules. -/
theorem diagnostics_ofAnalyses {settings : Settings} {source : Text}
    {analyses : List (Section Tree × Analysis Tree)}
    (hparts : analyses.map Prod.fst = parts settings source) :
    (ofAnalyses settings source (Extraction.of source) analyses).diagnostics =
      analyses.flatMap (fun (part, analysis) => part.report analysis) ++
        (Validation.findings settings source (Extraction.of source)
          (processedTemplate settings source)).map
          Finding.diagnostic := by
  have htemplate : (analyses.map fun (part, analysis) => part.withAnalysis analysis).findSome?
      Section.template = processedTemplate settings source := by
    rw [← findSome?_template_parts Tree, ← hparts, List.findSome?_map, List.findSome?_map]
    congr 1
    funext pair
    exact template_withAnalysis pair.1 pair.2
  rw [ofAnalyses, htemplate]

/-- Every run of the reading is as described. -/
theorem reading_read {σ : Type} (settings : Settings)
    (analyze : BlockKind → Text → StateM σ (Analysis Tree)) (source : Text) (start : σ) :
    Reading settings source analyze start (analysesOf settings analyze source start)
      (read settings analyze source start).1 (read settings analyze source start).2 := by
  have hparts := map_fst_analysesOf settings analyze source start
  rw [read_eq_ofAnalyses]
  refine ⟨hparts, ?_, ?_, rfl, rfl, ?_⟩
  · rw [← Extraction.map_fst_present, ← map_kind_parts Tree settings, ← hparts, List.map_map]
    rfl
  · exact Prod.ext (map_snd_analysesOf settings analyze source start).symm rfl
  · refine ⟨(analysesOf settings analyze source start).map fun (part, analysis) =>
      part.report analysis, ?_, ?_⟩
    · rw [List.forall₂_map_right_iff, List.forall₂_same]
      exact fun pair _ => isSegment_report pair.1 pair.2
    · rw [diagnostics_ofAnalyses hparts, List.flatMap_def]

/-! ## Two readings -/

/-- The two sets of analyzers behave alike on all kinds but one: from related states the analyzers
of the other kinds give the same answers, and no call leads to states that are not related. -/
structure AlikeExcept {σ τ : Type} (kind : BlockKind) (related : σ → τ → Prop)
    (first : BlockKind → Text → StateM σ (Analysis Tree))
    (second : BlockKind → Text → StateM τ (Analysis Tree)) : Prop where
  answer : ∀ other ≠ kind, ∀ text state state', related state state' →
    (first other text state).1 = (second other text state').1
  keeps : ∀ other text state state', related state state' →
    related (first other text state).2 (second other text state').2

/-- The answers about the same section are the same, unless it is of this kind. -/
def AgreeExcept (kind : BlockKind) (pair other : Section Tree × Analysis Tree) : Prop :=
  pair.1 = other.1 ∧ (pair.1.kind ≠ kind → pair.2 = other.2)

/-- Two documents of one file differ only where the analysis of one kind of block shows. -/
structure Isolated (kind : BlockKind) (analyses others : List (Section Tree × Analysis Tree))
    (document other : Document Tree) : Prop where
  /-- The other analyzers give the same answers. -/
  answers : List.Forall₂ (AgreeExcept kind) analyses others
  /-- The sections are the same up to the tree and the diagnostics of the one kind. -/
  sections : List.Forall₂
    (fun part other => { part with tree := other.tree, diagnostics := other.diagnostics } = other ∧
      (part.kind ≠ kind → part = other))
    document.sections other.sections
  /-- The diagnostics are the same up to one segment, that of the one kind. -/
  diagnostics : ∃ before mine theirs after : List Diagnostic,
    document.diagnostics = before ++ mine ++ after ∧ other.diagnostics = before ++ theirs ++ after ∧
    (∀ pair ∈ analyses, pair.1.kind = kind → IsSegment pair.1 pair.2 mine) ∧
    (∀ pair ∈ others, pair.1.kind = kind → IsSegment pair.1 pair.2 theirs) ∧
    (kind ∉ analyses.map (fun pair => pair.1.kind) → mine = [] ∧ theirs = [])

section

variable {σ τ : Type} {kind : BlockKind} {related : σ → τ → Prop}
  {first : BlockKind → Text → StateM σ (Analysis Tree)}
  {second : BlockKind → Text → StateM τ (Analysis Tree)}

/-- Asking about sections in a row keeps the states related, and the answers agree. -/
theorem AlikeExcept.agree (h : AlikeExcept kind related first second)
    (sections : List (Section Tree)) {state : σ} {state' : τ} (hstate : related state state') :
    let questions := sections.map fun part => (part.kind, part.analyzed)
    List.Forall₂ (AgreeExcept kind) (sections.zip (ask first questions state).1)
        (sections.zip (ask second questions state').1) ∧
      related (ask first questions state).2 (ask second questions state').2 := by
  induction sections generalizing state state' with
  | nil => exact ⟨.nil, hstate⟩
  | cons part sections ih =>
    obtain ⟨hagree, hfinal⟩ := ih (h.keeps part.kind part.analyzed _ _ hstate)
    dsimp only
    rw [List.map_cons, ask_cons, ask_cons]
    refine ⟨.cons ⟨rfl, fun hkind => ?_⟩ hagree, hfinal⟩
    exact h.answer part.kind hkind part.analyzed _ _ hstate

end

private theorem eq_of_agreeExcept {kind : BlockKind}
    {analyses others : List (Section Tree × Analysis Tree)}
    (h : List.Forall₂ (AgreeExcept kind) analyses others)
    (hkind : kind ∉ analyses.map fun pair => pair.1.kind) : analyses = others := by
  induction h with
  | nil => rfl
  | @cons pair other analyses others hpair _ ih =>
    rw [List.map_cons, List.mem_cons, not_or] at hkind
    rw [ih hkind.2, Prod.ext hpair.1 (hpair.2 (Ne.symm hkind.1))]

/-- What is said about sections in a row differs in one segment at most. -/
private theorem exists_segments_of_agreeExcept {kind : BlockKind}
    {analyses others : List (Section Tree × Analysis Tree)}
    (h : List.Forall₂ (AgreeExcept kind) analyses others)
    (hnodup : (analyses.map fun pair => pair.1.kind).Nodup) :
    ∃ before mine theirs after : List Diagnostic,
      analyses.flatMap (fun (part, analysis) => part.report analysis) = before ++ mine ++ after ∧
      others.flatMap (fun (part, analysis) => part.report analysis) = before ++ theirs ++ after ∧
      (∀ pair ∈ analyses, pair.1.kind = kind → IsSegment pair.1 pair.2 mine) ∧
      (∀ pair ∈ others, pair.1.kind = kind → IsSegment pair.1 pair.2 theirs) ∧
      (kind ∉ analyses.map (fun pair => pair.1.kind) → mine = [] ∧ theirs = []) := by
  induction h with
  | nil =>
    refine ⟨[], [], [], [], rfl, rfl, ?_, ?_, fun _ => ⟨rfl, rfl⟩⟩ <;> exact fun _ hmem =>
      absurd hmem List.not_mem_nil
  | @cons pair other analyses others hpair hrest ih =>
    rw [List.map_cons, List.nodup_cons] at hnodup
    by_cases hkind : pair.1.kind = kind
    · -- the sections after it are of other kinds, so all answers about them are the same
      rw [hkind] at hnodup
      obtain rfl := eq_of_agreeExcept hrest hnodup.1
      have hother : ∀ found ∈ analyses, found.1.kind ≠ kind := by
        rintro found hfound rfl
        exact hnodup.1 (List.mem_map.mpr ⟨found, hfound, rfl⟩)
      refine ⟨[], pair.1.report pair.2, other.1.report other.2, _, rfl, rfl, ?_, ?_, ?_⟩
      · intro found hfound hfoundKind
        rcases List.mem_cons.mp hfound with rfl | hfound
        · exact isSegment_report _ _
        · exact absurd hfoundKind (hother found hfound)
      · intro found hfound hfoundKind
        rcases List.mem_cons.mp hfound with rfl | hfound
        · exact isSegment_report _ _
        · exact absurd hfoundKind (hother found hfound)
      · intro habsent
        rw [List.map_cons, hkind] at habsent
        exact absurd List.mem_cons_self habsent
    · obtain rfl : pair = other := Prod.ext hpair.1 (hpair.2 hkind)
      obtain ⟨before, mine, theirs, after, hmine, htheirs, hown, htheir, habsent⟩ := ih hnodup.2
      refine ⟨pair.1.report pair.2 ++ before, mine, theirs, after, ?_, ?_, ?_, ?_, ?_⟩
      · rw [List.flatMap_cons, hmine]
        simp only [List.append_assoc]
      · rw [List.flatMap_cons, htheirs]
        simp only [List.append_assoc]
      · intro found hfound hfoundKind
        rcases List.mem_cons.mp hfound with rfl | hfound
        · exact absurd hfoundKind hkind
        · exact hown found hfound hfoundKind
      · intro found hfound hfoundKind
        rcases List.mem_cons.mp hfound with rfl | hfound
        · exact absurd hfoundKind hkind
        · exact htheir found hfound hfoundKind
      · intro hnot
        rw [List.map_cons, List.mem_cons, not_or] at hnot
        exact habsent hnot.2

/-- Sections whose analyses agree are the same up to the tree and the diagnostics of the one
kind. -/
private theorem forall₂_withAnalysis {kind : BlockKind}
    {analyses others : List (Section Tree × Analysis Tree)}
    (h : List.Forall₂ (AgreeExcept kind) analyses others) :
    List.Forall₂
      (fun part other : Section Tree =>
        { part with tree := other.tree, diagnostics := other.diagnostics } = other ∧
          (part.kind ≠ kind → part = other))
      (analyses.map fun (part, analysis) => part.withAnalysis analysis)
      (others.map fun (part, analysis) => part.withAnalysis analysis) := by
  rw [List.forall₂_map_left_iff, List.forall₂_map_right_iff]
  refine h.imp ?_
  rintro ⟨part, analysis⟩ ⟨_, other⟩ ⟨rfl, hanalysis⟩
  constructor
  · dsimp only
    rw [withAnalysis_eq part analysis, withAnalysis_eq part other]
  · intro hkind
    have hsame : (part.withAnalysis analysis).kind = part.kind := by rw [withAnalysis_eq]
    rw [hsame] at hkind
    exact congrArg part.withAnalysis (hanalysis hkind)

/-- One analyzer cannot affect the rest of a document. When two sets of analyzers behave alike on
all kinds but one, then in both readings each block present is given to its analyzer once, in the
order of the kinds, and the diagnostics are one segment for each block and then the broken rules;
and the two documents differ only in the tree and the diagnostics of the section of that kind and in
its segment. The states of the analyzers are as related after the readings as they were before. -/
theorem isolated_read {σ τ : Type} {kind : BlockKind} {related : σ → τ → Prop}
    {first : BlockKind → Text → StateM σ (Analysis Tree)}
    {second : BlockKind → Text → StateM τ (Analysis Tree)}
    (h : AlikeExcept kind related first second) {state : σ} {state' : τ}
    (hstate : related state state') (settings : Settings) (source : Text) :
    ∃ analyses others : List (Section Tree × Analysis Tree),
      Reading settings source first state analyses
        (read settings first source state).1 (read settings first source state).2 ∧
      Reading settings source second state' others
        (read settings second source state').1 (read settings second source state').2 ∧
      Isolated kind analyses others (read settings first source state).1
        (read settings second source state').1 ∧
      related (read settings first source state).2 (read settings second source state').2 := by
  have hone := reading_read settings first source state
  have hother := reading_read settings second source state'
  obtain ⟨hzip, hfinal⟩ := h.agree (parts settings source) hstate
  rw [map_parts_eq_requests] at hzip hfinal
  have hagree : List.Forall₂ (AgreeExcept kind) (analysesOf settings first source state)
      (analysesOf settings second source state') := hzip
  have hnodup : ((analysesOf settings first source state).map fun pair => pair.1.kind).Nodup := by
    rw [hone.kinds_eq, ← Extraction.map_fst_present]
    exact Extraction.nodup_map_fst_present _
  obtain ⟨before, mine, theirs, after, hmine, htheirs, hsegments⟩ :=
    exists_segments_of_agreeExcept hagree hnodup
  let rules :=
    (Validation.findings settings source (Extraction.of source)
      (processedTemplate settings source)).map
      Finding.diagnostic
  refine ⟨_, _, hone, hother, ⟨hagree, ?_, ?_⟩, ?_⟩
  · rw [hone.sections_eq, hother.sections_eq]
    exact forall₂_withAnalysis hagree
  · refine ⟨before, mine, theirs, after ++ rules, ?_, ?_, hsegments⟩
    · rw [read_eq_ofAnalyses, diagnostics_ofAnalyses (map_fst_analysesOf _ _ _ _), hmine,
        List.append_assoc]
    · rw [read_eq_ofAnalyses, diagnostics_ofAnalyses (map_fst_analysesOf _ _ _ _), htheirs,
        List.append_assoc]
  · rw [read_eq_ofAnalyses, read_eq_ofAnalyses]
    exact hfinal

/-- Both sets of analyzers take the text of a block for its tree. One set counts its calls, and the
other one keeps a list of them and fails on styles: only the style of the file shows the
difference. -/
theorem isolated_read_style :
    let source := "<template>{{a}}</template><style>b</style>".toList
    let counting : BlockKind → Text → StateM Nat (Analysis Text) := fun _ text calls =>
      (.ok [] (some text), calls + 1)
    let listing : BlockKind → Text → StateM (List BlockKind) (Analysis Text) :=
      fun kind text calls =>
      (if kind = .style then .error .noTree else .ok [] (some text), kind :: calls)
    ∃ analyses others : List (Section Text × Analysis Text),
      Reading {} source counting 0 analyses (read {} counting source 0).1
        (read {} counting source 0).2 ∧
      Reading {} source listing [] others (read {} listing source []).1
        (read {} listing source []).2 ∧
      Isolated .style analyses others (read {} counting source 0).1 (read {} listing source []).1 ∧
      (read {} counting source 0).2 = (read {} listing source []).2.length := by
  intro source counting listing
  have halike : AlikeExcept .style (fun count calls => count = calls.length) counting listing := by
    constructor
    · intro other hother text count calls _
      exact (if_neg hother).symm
    · rintro other text _ calls rfl
      rfl
  have hstart : 0 = ([] : List BlockKind).length := rfl
  exact isolated_read halike hstart {} source

end Document

end ComponentFile
