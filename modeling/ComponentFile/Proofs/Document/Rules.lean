import ComponentFile.Validation.Rules
import Mathlib.Data.List.Basic
import Mathlib.Tactic.SplitIfs

/-!
# What the rules report

Each rule reports findings of a few categories only. So the findings of one category come from the
rules for one kind of block, and those about runtimes from the components among the directives of
the template.
-/

namespace ComponentFile

/-! ## Components among directives -/

/-- The component that a directive asks for, if it asks for one. -/
def DirectiveKind.component? : DirectiveKind → Option Template.Component
  | .component tag runtime attributes children => some { tag, runtime, attributes, children }
  | .interpolation _ | .conditional _ _ | .loop _ _ _ _ _ | .rawMarkup _ => none

/-- The components among directives. -/
def Registry.components (registry : Registry) : List Template.Component :=
  registry.toList.filterMap fun directive => directive.kind.component?

/-- Where only the template gives something, all that the blocks give is what the template gives. -/
theorem Extraction.flatMap_present {β : Type} {extraction : Extraction} {block : Block}
    (h : extraction.template = some block) (f : BlockKind × Block → List β)
    (hother : ∀ kind, kind ≠ .template → ∀ block, f (kind, block) = []) :
    extraction.present.flatMap f = f (.template, block) := by
  have hnone (kind : BlockKind) (hkind : kind ≠ .template) :
      ((extraction.get? kind).map (kind, ·)).toList.flatMap f = [] := by
    refine List.flatMap_eq_nil_iff.mpr fun entry hm => ?_
    obtain ⟨block, -, rfl⟩ := Option.map_eq_some_iff.mp (Option.mem_toList.mp hm)
    exact hother kind hkind block
  have htemplate : ((extraction.get? .template).map (BlockKind.template, ·)).toList =
      [(.template, block)] := by
    rw [show extraction.get? .template = some block from h]
    rfl
  rw [present, List.filterMap_eq_flatMap_toList, List.flatMap_assoc, BlockKind.all]
  simp only [List.flatMap_cons, List.flatMap_nil, htemplate, hnone .backend (by decide),
    hnone .uiLogic (by decide), hnone .style (by decide), List.nil_append, List.append_nil]

namespace Validation

variable {settings : Settings} {source content : Text} {finding : Finding}

/-! ## Categories -/

/-- The rules for a backend are about its entry function. -/
theorem kind_mem_of_mem_checkBackend (h : finding ∈ checkBackend settings content) :
    finding.kind ∈ [DiagnosticKind.missingServerProps, .invalidFunctionSignature] := by
  rw [checkBackend] at h
  split_ifs at h
  · rw [List.mem_singleton.mp h]
    exact List.mem_cons_self
  · cases h
  · rw [List.mem_singleton.mp h]
    exact List.mem_cons_of_mem _ List.mem_cons_self

/-- The rules for client code are about properties and interfaces. -/
theorem kind_mem_of_mem_checkScript {base : Nat} (h : finding ∈ checkScript settings base content) :
    finding.kind ∈ [DiagnosticKind.missingDefineProps, .emptyInterface] := by
  rw [checkScript, List.mem_append, List.mem_filterMap] at h
  rcases h with h | ⟨⟨body, start, stop⟩, -, h⟩
  · split_ifs at h
    · cases h
    · rw [List.mem_singleton.mp h]
      exact List.mem_cons_self
  · dsimp only at h
    split_ifs at h
    cases h
    exact List.mem_cons_of_mem _ List.mem_cons_self

/-- The rules for markup are about tags and event handlers. -/
theorem kind_mem_of_mem_checkMarkup {base : Nat} (h : finding ∈ checkMarkup base content) :
    finding.kind ∈ [DiagnosticKind.forbiddenTag, .forbiddenEventAttribute] := by
  rw [checkMarkup, List.mem_append, List.mem_map, List.mem_map] at h
  rcases h with ⟨entry, -, rfl⟩ | ⟨entry, -, rfl⟩
  · exact List.mem_cons_self
  · exact List.mem_cons_of_mem _ List.mem_cons_self

/-- The finding about a component, if its runtime is not among the supported ones. -/
def runtimeFinding? (settings : Settings) (component : Template.Component) : Option Finding :=
  if settings.supportsRuntime component.runtime then none
  else some (.unsupportedRuntime component.tag component.runtime settings.supportedRuntimes)

theorem kind_of_runtimeFinding? {component : Template.Component}
    (h : runtimeFinding? settings component = some finding) :
    finding.kind = .invalidTargetRuntime := by
  rw [runtimeFinding?] at h
  split_ifs at h
  cases h
  rfl

/-- The rules for a directive are about conditions and the headers of loops, or about a
component. -/
theorem kind_mem_or_of_mem_checkDirective {directive : Directive}
    (h : finding ∈ checkDirective settings directive) :
    finding.kind ∈ [DiagnosticKind.emptyCondition, .invalidEachDirective] ∨
      ∃ component, directive.kind.component? = some component ∧
        runtimeFinding? settings component = some finding := by
  rw [checkDirective] at h
  split at h
  · cases h
  · cases h
  · rw [List.mem_append, List.mem_filterMap] at h
    rcases h with h | ⟨branch, -, h⟩
    · split_ifs at h
      · rw [List.mem_singleton.mp h]
        exact .inl List.mem_cons_self
      · cases h
    · split at h
      · split_ifs at h
        cases h
        exact .inl List.mem_cons_self
      · cases h
  · split_ifs at h
    · rw [List.mem_singleton.mp h]
      exact .inl (List.mem_cons_of_mem _ List.mem_cons_self)
    · cases h
  · next tag runtime attributes children hkind =>
    split_ifs at h with hsupported
    · cases h
    · rw [hkind, List.mem_singleton.mp h]
      exact .inr ⟨_, rfl, if_neg hsupported⟩

/-- The rules for styling are about its braces. -/
theorem kind_mem_of_mem_checkStyle (h : finding ∈ checkStyle content) :
    finding.kind ∈ [DiagnosticKind.unmatchedBraces] := by
  rw [checkStyle] at h
  split_ifs at h
  · cases h
  · rw [List.mem_singleton.mp h]
    exact List.mem_cons_self

/-- Repeated blocks are reported as such. -/
theorem kind_eq_of_mem_checkDuplicates {extraction : Extraction}
    (h : finding ∈ checkDuplicates source extraction) :
    finding.kind = .duplicateSection := by
  rw [checkDuplicates, List.mem_filterMap] at h
  obtain ⟨kind, -, h⟩ := h
  dsimp only at h
  split_ifs at h
  cases h
  rfl

/-! ## Findings about runtimes -/

/-- Findings of other categories are left out. -/
theorem filter_kind_eq_nil {found : List Finding} {kind : DiagnosticKind}
    (h : ∀ finding ∈ found, finding.kind ≠ kind) :
    found.filter (fun finding => finding.kind = kind) = [] := by
  rw [List.filter_eq_nil_iff]
  intro finding hm
  simpa only [decide_eq_true_eq] using h finding hm

/-- Of the findings about one directive, those about runtimes are about the component it asks
for. -/
private theorem filter_checkDirective (settings : Settings) (directive : Directive) :
    (checkDirective settings directive).filter
        (fun finding => finding.kind = .invalidTargetRuntime) =
      (directive.kind.component?.bind (runtimeFinding? settings)).toList := by
  cases hcomponent : directive.kind.component? with
  | none =>
    refine filter_kind_eq_nil fun finding hm => ?_
    rcases kind_mem_or_of_mem_checkDirective hm with hkind | ⟨component, hfound, -⟩
    · exact ne_of_mem_of_not_mem hkind (by decide)
    · rw [hcomponent] at hfound
      cases hfound
  | some component =>
    cases hkind : directive.kind with
    | component tag runtime attributes children =>
      rw [hkind] at hcomponent
      obtain rfl := Option.some.inj hcomponent
      rw [checkDirective, hkind, Option.bind_some, runtimeFinding?]
      dsimp only
      split_ifs <;> rfl
    | interpolation | conditional | loop | rawMarkup =>
      rw [hkind] at hcomponent
      cases hcomponent

/-- Of the findings about the directives of a template, those about runtimes are about its
components. -/
private theorem filter_checkDirectives (settings : Settings) (template : ProcessedTemplate) :
    (checkDirectives settings template).filter
        (fun finding => finding.kind = .invalidTargetRuntime) =
      (Registry.components template.directives).filterMap (runtimeFinding? settings) := by
  rw [checkDirectives, List.filter_flatMap, Registry.components, List.filterMap_filterMap,
    List.filterMap_eq_flatMap_toList]
  exact List.flatMap_congr fun directive _ => filter_checkDirective settings directive

/-- Blocks that are no templates have no findings about runtimes. -/
private theorem filter_checkBlock {template : Option ProcessedTemplate} {kind : BlockKind}
    (hkind : kind ≠ .template) (block : Block) :
    (checkBlock settings source template kind block).filter
        (fun finding => finding.kind = .invalidTargetRuntime) =
      [] := by
  refine filter_kind_eq_nil fun finding hm => ?_
  cases kind with
  | backend => exact ne_of_mem_of_not_mem (kind_mem_of_mem_checkBackend hm) (by decide)
  | uiLogic => exact ne_of_mem_of_not_mem (kind_mem_of_mem_checkScript hm) (by decide)
  | template => exact absurd rfl hkind
  | style => exact ne_of_mem_of_not_mem (kind_mem_of_mem_checkStyle hm) (by decide)

/-- Of all findings about a file, those about runtimes are about the components of its template. -/
theorem filter_findings (settings : Settings) (source : Text) {extraction : Extraction}
    {block : Block} (h : extraction.template = some block) (template : ProcessedTemplate) :
    (findings settings source extraction (some template)).filter
        (fun finding => finding.kind = .invalidTargetRuntime) =
      (Registry.components template.directives).filterMap (runtimeFinding? settings) := by
  have hduplicates : (checkDuplicates source extraction).filter
      (fun finding => finding.kind = .invalidTargetRuntime) = [] := by
    refine filter_kind_eq_nil fun finding hm => ?_
    rw [kind_eq_of_mem_checkDuplicates hm]
    decide
  have hmarkup : (checkMarkup (contentOffset source block) block.content).filter
      (fun finding => finding.kind = .invalidTargetRuntime) = [] :=
    filter_kind_eq_nil fun finding hm =>
      ne_of_mem_of_not_mem (kind_mem_of_mem_checkMarkup hm) (by decide)
  have htemplate : (checkBlock settings source (some template) .template block).filter
      (fun finding => finding.kind = .invalidTargetRuntime) =
        (Registry.components template.directives).filterMap (runtimeFinding? settings) := by
    rw [checkBlock, List.filter_append, hmarkup, List.nil_append]
    exact filter_checkDirectives settings template
  rw [findings, List.filter_append, hduplicates, List.nil_append, List.filter_flatMap]
  exact (Extraction.flatMap_present h _ fun kind hkind block =>
    filter_checkBlock hkind block).trans htemplate

end Validation

end ComponentFile
