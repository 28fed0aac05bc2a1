import ComponentFile.Proofs.Document.Rules
import ComponentFile.Proofs.Draft.Element
import ComponentFile.Proofs.Draft.Skeleton

/-!
# The components of a template

Components are looked for once, at the end, in what is left of the whole template. By then
placeholders stand for its loops and conditionals. So a component is found, and its runtime is
checked, exactly if it stands in no loop and no conditional; the others stay in the bodies of their
directives as they are written.
-/

namespace ComponentFile

open Validation

/-! ## Components among directives -/

/-- The components built from items come after those already there, in the order of the items. -/
theorem Registry.components_replaceFrom (offset : Nat)
    (segments : List (Segment Template.Component)) (registry : Registry) :
    components (replaceFrom (fun found registry =>
        (.component found.tag found.runtime found.attributes found.children, registry)) offset
          segments registry).2 =
      registry.components ++ Segment.values segments := by
  induction segments generalizing offset registry with
  | nil => rw [Segment.values_nil, List.append_nil, replaceFrom]
  | cons segment segments ih =>
    cases segment with
    | char c => exact ih _ registry
    | item source found =>
      refine (ih _ _).trans ?_
      simp only [components, Array.toList_push, List.filterMap_append, List.append_assoc,
        Segment.values_item]
      rfl

namespace Template

private theorem components_processFragment (limit : Nat) (text : Text) :
    Registry.components (processFragment limit text #[]).2 = [] := by
  have htraced : Traced (KeepsAll fun directive => directive.kind.component? = none) :=
    traced_keepsAll (fun _ _ _ _ _ => rfl) (fun _ _ _ _ _ => rfl) (fun _ _ _ => rfl)
      fun _ _ _ => rfl
  refine List.filterMap_eq_nil_iff.mpr ?_
  exact htraced.processAt limit (text.count '{') text #[] fun _ hm => by cases hm

/-- The components of a template are those read in what is left of it. -/
private theorem components_process_eq_values (settings : Settings) (text : Text) :
    Registry.components (process settings text).directives =
      Segment.values (Segment.segments (component settings.runtimeAttribute)
        (processFragment settings.passLimit text #[]).1) := by
  have hfragment := components_processFragment settings.passLimit text
  have hall := Registry.components_replaceFrom 0
    (Segment.segments (component settings.runtimeAttribute)
      (processFragment settings.passLimit text #[]).1)
    (processFragment settings.passLimit text #[]).2
  rwa [hfragment, List.nil_append] at hall

/-! ## Compositions -/

mutual

/-- A template of characters, elements that are components, loops and conditionals. Each node holds
what follows it on its level. -/
inductive Composition where
  | nil
  | char (c : Char) (hplain : c ∉ ['<', '>', '{', '}']) (next : Composition)
  | element (element : Element) (next : Composition)
  | loop (header : HeaderText) (body next : Composition)
  | conditional (condition : HeaderText) (body : Composition) (arms : CompositionArms)
      (next : Composition)

/-- The further arms of a conditional, each with a condition or without. -/
inductive CompositionArms where
  | nil
  | cons (condition : Option HeaderText) (body : Composition) (rest : CompositionArms)

end

mutual

/-- The text of a composition; `name` is the name of the runtime attribute. -/
def Composition.text (name : Text) : Composition → Text
  | .nil => []
  | .char c _ next => c :: next.text name
  | .element element next => element.text name ++ next.text name
  | .loop header body next => header.eachToken ++ body.text name ++ eachClosing ++ next.text name
  | .conditional condition body arms next =>
    condition.ifToken ++ body.text name ++ arms.text name ++ ifClosing ++ next.text name

/-- The text of further arms, up to the token that closes the conditional. -/
def CompositionArms.text (name : Text) : CompositionArms → Text
  | .nil => []
  | .cons condition body rest => HeaderText.armToken condition ++ body.text name ++ rest.text name

end

mutual

/-- All elements, in the order of the text. -/
def Composition.elements : Composition → List Element
  | .nil => []
  | .char _ _ next => next.elements
  | .element element next => element :: next.elements
  | .loop _ body next => body.elements ++ next.elements
  | .conditional _ body arms next => body.elements ++ arms.elements ++ next.elements

/-- The same of further arms. -/
def CompositionArms.elements : CompositionArms → List Element
  | .nil => []
  | .cons _ body rest => body.elements ++ rest.elements

end

mutual

/-- The length of the longest chain of loops nested in one another without a conditional in between,
in a composition that stands in `enclosing` such loops. -/
def Composition.loopChain : Nat → Composition → Nat
  | enclosing, .nil => enclosing
  | enclosing, .char _ _ next => next.loopChain enclosing
  | enclosing, .element _ next => next.loopChain enclosing
  | enclosing, .loop _ body next => max (body.loopChain (enclosing + 1)) (next.loopChain enclosing)
  | enclosing, .conditional _ body arms next =>
    max (max (body.loopChain 0) arms.loopChain) (next.loopChain enclosing)

/-- The same of further arms. -/
def CompositionArms.loopChain : CompositionArms → Nat
  | .nil => 0
  | .cons _ body rest => max (body.loopChain 0) rest.loopChain

end

namespace Composition

/-- The elements that stand in no loop and no conditional. -/
def outermost : Composition → List Element
  | .nil => []
  | .char _ _ next => next.outermost
  | .element item next => item :: next.outermost
  | .loop _ _ next => next.outermost
  | .conditional _ _ _ next => next.outermost

/-- The markup of the outermost level, with `none` for each loop and each conditional. -/
def parts (name : Text) : Composition → List (Option Text)
  | .nil => []
  | .char c _ next => some [c] :: next.parts name
  | .element item next => some (item.text name) :: next.parts name
  | .loop _ _ next => none :: next.parts name
  | .conditional _ _ _ next => none :: next.parts name

/-- The outermost elements are among all elements, in the same order. -/
theorem outermost_sublist :
    ∀ composition : Composition, composition.outermost.Sublist composition.elements
  | .nil => List.nil_sublist _
  | .char _ _ next => next.outermost_sublist
  | .element item next => next.outermost_sublist.cons_cons item
  | .loop _ _ next => List.sublist_append_of_sublist_right next.outermost_sublist
  | .conditional _ _ _ next => List.sublist_append_of_sublist_right next.outermost_sublist

/-- The loops around a composition belong to the chain. -/
theorem le_loopChain (enclosing : Nat) :
    ∀ composition : Composition, enclosing ≤ composition.loopChain enclosing
  | .nil => Nat.le_refl _
  | .char _ _ next => next.le_loopChain enclosing
  | .element _ next => next.le_loopChain enclosing
  | .loop _ _ next => (next.le_loopChain enclosing).trans (Nat.le_max_right _ _)
  | .conditional _ _ _ next => (next.le_loopChain enclosing).trans (Nat.le_max_right _ _)

/-- A character of a composition is no brace. -/
theorem braceFree_singleton {c : Char} (hplain : c ∉ ['<', '>', '{', '}']) : BraceFree [c] := by
  constructor <;>
    · rw [List.mem_singleton]
      rintro rfl
      exact hplain (by decide)

end Composition

/-! ## Levels -/

section

variable {name : Text}

mutual

/-- The text of a composition is a level. -/
theorem Composition.exists_level (hname : IsAttributeName name) {limit enclosing : Nat} :
    ∀ {composition : Composition}, composition.loopChain enclosing ≤ limit →
      ∃ problems, Level limit (limit - enclosing) problems (composition.text name)
  | .nil, _ => ⟨0, .nil _⟩
  | .char c hplain next, h => by
    have hnext : next.loopChain enclosing ≤ limit := h
    obtain ⟨problems, hlevel⟩ := Composition.exists_level hname hnext
    exact ⟨problems, hlevel.markup (Composition.braceFree_singleton hplain)⟩
  | .element item next, h => by
    have hnext : next.loopChain enclosing ≤ limit := h
    obtain ⟨problems, hlevel⟩ := Composition.exists_level hname hnext
    exact ⟨problems, hlevel.markup (item.braceFree_text hname)⟩
  | .loop header body next, h => by
    obtain ⟨hbody, hnext⟩ := Nat.max_le.mp h
    obtain ⟨inside, hinside⟩ := Composition.exists_level hname hbody
    obtain ⟨outside, houtside⟩ := Composition.exists_level hname hnext
    have hless := body.le_loopChain (enclosing + 1)
    have hone : limit - enclosing = limit - (enclosing + 1) + 1 := by omega
    rw [hone] at houtside ⊢
    exact ⟨_, .loop header hinside houtside⟩
  | .conditional condition body arms next, h => by
    obtain ⟨hinside, hnext⟩ := Nat.max_le.mp h
    obtain ⟨hbody, harms⟩ := Nat.max_le.mp hinside
    obtain ⟨inside, hinside⟩ := Composition.exists_level hname hbody
    obtain ⟨outside, houtside⟩ := Composition.exists_level hname hnext
    obtain ⟨list, htext, hlist⟩ := CompositionArms.exists_arms hname harms
    rw [Composition.text, ← htext]
    exact ⟨_, .conditional condition list hinside hlist houtside⟩

/-- Further arms are arms whose bodies are levels. -/
theorem CompositionArms.exists_arms (hname : IsAttributeName name) {limit : Nat} :
    ∀ {arms : CompositionArms}, arms.loopChain ≤ limit → ∃ list : List ArmText,
      list.flatMap ArmText.text = arms.text name ∧ ∀ arm ∈ list,
        Level limit limit arm.problems arm.body
  | .nil, _ => ⟨[], rfl, fun _ hm => by cases hm⟩
  | .cons condition body rest, h => by
    obtain ⟨hbody, hrest⟩ := Nat.max_le.mp h
    obtain ⟨problems, hlevel⟩ := Composition.exists_level hname hbody
    obtain ⟨list, htext, hlist⟩ := CompositionArms.exists_arms hname hrest
    refine ⟨{ condition, body := body.text name, problems } :: list, ?_, ?_⟩
    · rw [List.flatMap_cons, htext]
      rfl
    · intro arm hm
      rcases List.mem_cons.mp hm with rfl | hm
      · exact hlevel
      · exact hlist arm hm

end

namespace Composition

/-- The text of a composition is its outermost markup with blocks in between. -/
theorem planned (hname : IsAttributeName name) {limit enclosing : Nat} :
    ∀ {composition : Composition}, composition.loopChain enclosing ≤ limit →
      Planned limit (limit - enclosing) (composition.parts name) (composition.text name)
  | .nil, _ => .nil _
  | .char c hplain next, h => by
    have hnext : next.loopChain enclosing ≤ limit := h
    exact .run [c] (braceFree_singleton hplain) (planned hname hnext)
  | .element item next, h => by
    have hnext : next.loopChain enclosing ≤ limit := h
    exact .run _ (item.braceFree_text hname) (planned hname hnext)
  | .loop header body next, h => by
    obtain ⟨hbody, hnext⟩ := Nat.max_le.mp h
    have hless := body.le_loopChain (enclosing + 1)
    have hone : limit - enclosing = limit - (enclosing + 1) + 1 := by omega
    have houtside := planned hname hnext
    rw [hone] at houtside ⊢
    exact .loop header (exists_level hname hbody) houtside
  | .conditional condition body arms next, h => by
    obtain ⟨hinside, hnext⟩ := Nat.max_le.mp h
    obtain ⟨hbody, harms⟩ := Nat.max_le.mp hinside
    obtain ⟨inside, hinside⟩ := exists_level hname hbody
    obtain ⟨list, htext, hlist⟩ := CompositionArms.exists_arms hname harms
    rw [text, ← htext]
    exact .block (.mk condition list hinside hlist) (planned hname hnext)

/-! ## What is found -/

/-- Text that is passed over adds no items. -/
theorem values_scan_of_passes {front : Text} (h : Passes (component name) front) (text : Text) :
    Segment.values (Segment.scan (component name) 0 (front ++ text)) =
      Segment.values (Segment.scan (component name) 0 text) := by
  have hplain (text : Text) :
      Segment.values (Segment.plain text : List (Segment Component)) = [] := by
    rw [Segment.values, List.filterMap_eq_nil_iff]
    intro segment hm
    obtain ⟨c, -, rfl⟩ := List.mem_map.mp hm
    rfl
  rw [Segment.scan_of_passes h, Segment.values_append, hplain, List.nil_append]

private theorem exists_values_of_staged {keep : Insert → Prop} {parts : List (Option Text)}
    {text : Text} (h : Staged keep 0 (none :: parts) text) : ∃ rest, Staged keep 0 parts rest ∧
      Segment.values (Segment.scan (component name) 0 text) =
        Segment.values (Segment.scan (component name) 0 rest) := by
  cases h with
  | mark directive hnext =>
    exact ⟨_, hnext, values_scan_of_passes (passes_component_render name directive) _⟩
  | block hsource => exact hsource.elim

/-- In the outermost markup with placeholders in between, the outermost elements are read. -/
private theorem values_scan (hname : IsAttributeName name) {keep : Insert → Prop} :
    ∀ {composition : Composition} {text : Text}, Staged keep 0 (composition.parts name) text →
      Segment.values (Segment.scan (component name) 0 text) =
        composition.outermost.map (Element.component name)
  | .nil, text, h => by
    cases h
    rfl
  | .char c hplain next, text, h => by
    cases h with
    | run _ _ hnext =>
      have hopening : '<' ∉ [c] := by
        rw [List.mem_singleton]
        rintro rfl
        exact hplain List.mem_cons_self
      rw [values_scan_of_passes (passes_component_of_not_mem name hopening),
        values_scan hname hnext, outermost]
  | .element item next, text, h => by
    cases h with
    | run _ _ hnext =>
      have hne : item.text name ≠ [] := List.cons_ne_nil _ _
      rw [Segment.scan_item hne (item.component_append hname _), Segment.values_item,
        values_scan hname hnext, outermost, List.map_cons]
  | .loop _ _ next, text, h => by
    obtain ⟨rest, hnext, hvalues⟩ := exists_values_of_staged h
    rw [hvalues, values_scan hname hnext, outermost]
  | .conditional _ _ _ next, text, h => by
    obtain ⟨rest, hnext, hvalues⟩ := exists_values_of_staged h
    rw [hvalues, values_scan hname hnext, outermost]

/-- The components of a composition are its outermost elements, in order. -/
theorem components_process {settings : Settings} (hname : IsAttributeName settings.runtimeAttribute)
    (hlimit : 1 ≤ settings.passLimit) {composition : Composition}
    (hchain : composition.loopChain 0 ≤ settings.passLimit) :
    Registry.components (process settings (composition.text settings.runtimeAttribute)).directives =
      composition.outermost.map (Element.component settings.runtimeAttribute) := by
  rw [components_process_eq_values]
  exact values_scan hname ((planned hname hchain).staged_processFragment hlimit #[])

/-- The findings about runtimes in a file whose template is a composition are those about its
outermost elements. -/
theorem filter_findings_process {settings : Settings}
    (hname : IsAttributeName settings.runtimeAttribute) (hlimit : 1 ≤ settings.passLimit)
    {composition : Composition} (hchain : composition.loopChain 0 ≤ settings.passLimit)
    (source : Text) {extraction : Extraction} {block : Block}
    (hblock : extraction.template = some block)
    (hcontent : block.content = composition.text settings.runtimeAttribute) :
    (findings settings source extraction (some (process settings block.content))).filter
        (fun finding => finding.kind = .invalidTargetRuntime) =
      composition.outermost.filterMap fun element =>
        if settings.supportsRuntime element.runtime then none
        else some (.unsupportedRuntime element.tag element.runtime settings.supportedRuntimes) := by
  rw [filter_findings settings source hblock, hcontent, components_process hname hlimit hchain,
    List.filterMap_map]
  rfl

/-- The runtime attribute has a name by default. -/
theorem isAttributeName_default : IsAttributeName ({} : Settings).runtimeAttribute where
  ne_nil := by decide
  isNameChar_of_mem := by simp [isNameChar, isAttributeChar, isSpace]
  braceFree := ⟨by decide, by decide⟩

/-- Of the elements of a composition exactly the outermost ones become components, and exactly those
among them with an unsupported runtime are reported, once each. So all elements are found only if
none stands in a loop or a conditional. -/
theorem outermost_found (settings : Settings) (hname : IsAttributeName settings.runtimeAttribute)
    (hlimit : 1 ≤ settings.passLimit) (composition : Composition)
    (hchain : composition.loopChain 0 ≤ settings.passLimit) :
    let text := composition.text settings.runtimeAttribute
    let found := Registry.components (process settings text).directives
    found = composition.outermost.map (Element.component settings.runtimeAttribute) ∧
      (found.length = composition.elements.length ↔ composition.outermost = composition.elements) ∧
      ∀ (source : Text) (extraction : Extraction) (block : Block),
          extraction.template = some block →
        block.content = text →
        (findings settings source extraction (some (process settings block.content))).filter
            (fun finding => finding.kind = .invalidTargetRuntime) =
          composition.outermost.filterMap fun element =>
            if settings.supportsRuntime element.runtime then none
            else some (.unsupportedRuntime element.tag element.runtime
              settings.supportedRuntimes) := by
  intro text found
  have hfound : found = composition.outermost.map (Element.component settings.runtimeAttribute) :=
    components_process hname hlimit hchain
  refine ⟨hfound, ?_,
    fun source extraction block => filter_findings_process hname hlimit hchain source⟩
  rw [hfound, List.length_map]
  exact ⟨composition.outermost_sublist.eq_of_length, congrArg List.length⟩

/-- Of two elements with unsupported runtimes, the one in a conditional is neither found nor
reported. -/
theorem outermost_found_beside_conditional :
    ∃ (source : Text) (composition : Composition) (block : Block),
      source = "<template><A client=\"x\" />\x7b\x7b@if a\x7d\x7d".toList ++
          "<B client=\"y\" />\x7b\x7b/if\x7d\x7d</template>".toList ∧
        (Extraction.of source).template = some block ∧
        block.content = composition.text "client".toList ∧
        IsAttributeName "client".toList ∧ composition.loopChain 0 ≤ 10 ∧
        composition.elements.length = 2 ∧
        (Registry.components (process {} block.content).directives).map Component.tag = [['A']] ∧
        (findings {} source (Extraction.of source) (some (process {} block.content))).filter
            (fun finding => finding.kind = .invalidTargetRuntime) =
          [.unsupportedRuntime ['A'] ['x'] ["react".toList, "vue".toList, "svelte".toList]] := by
  let outside : Element :=
    { tag := ['A'], runtime := ['x'], isUpper := ⟨'A', [], rfl, rfl⟩,
      isTagChar_of_mem := by simp [isTagChar],
      runtime_ne_nil := by decide, quote_not_mem := by decide, braceFree := ⟨by decide, by decide⟩ }
  let inside : Element :=
    { tag := ['B'], runtime := ['y'], isUpper := ⟨'B', [], rfl, rfl⟩,
      isTagChar_of_mem := by simp [isTagChar],
      runtime_ne_nil := by decide, quote_not_mem := by decide, braceFree := ⟨by decide, by decide⟩ }
  let condition : HeaderText := ⟨[' ', 'a'], ⟨by decide, by decide⟩, by simp [isSpace]⟩
  let composition : Composition :=
    .element outside (.conditional condition (.element inside .nil) .nil .nil)
  let content :=
    "<A client=\"x\" />\x7b\x7b@if a\x7d\x7d<B client=\"y\" />\x7b\x7b/if\x7d\x7d".toList
  let source := "<template><A client=\"x\" />\x7b\x7b@if a\x7d\x7d".toList ++
    "<B client=\"y\" />\x7b\x7b/if\x7d\x7d</template>".toList
  have hblock : (Extraction.of source).template = some ⟨⟨content, 0, 69⟩, 1⟩ := by rfl
  have hcontent : content = composition.text "client".toList := by rfl
  have hchain : composition.loopChain 0 ≤ 10 := by decide
  obtain ⟨hcomponents, -, hfindings⟩ := outermost_found {} isAttributeName_default (by decide)
    composition hchain
  refine ⟨source, composition, _, rfl, hblock, hcontent, isAttributeName_default, hchain,
    rfl, ?_, ?_⟩
  · exact hcontent ▸ congrArg (List.map Component.tag) hcomponents
  · exact hfindings source (Extraction.of source) _ hblock hcontent

/-- An element in a conditional is not found, and its unsupported runtime is not reported. -/
theorem not_all_elements_found :
    ∃ (source : Text) (composition : Composition) (element : Element) (block : Block),
      source =
          "<template>\x7b\x7b@if a\x7d\x7d<A client=\"x\" />\x7b\x7b/if\x7d\x7d</template>".toList ∧
        (Extraction.of source).template = some block ∧
        block.content = composition.text "client".toList ∧
        composition.loopChain 0 ≤ 10 ∧ composition.elements = [element] ∧
        Settings.supportsRuntime {} element.runtime = false ∧
        Registry.components (process {} block.content).directives = [] ∧
        (findings {} source (Extraction.of source) (some (process {} block.content))).filter
          (fun finding => finding.kind = .invalidTargetRuntime) = [] := by
  let element : Element :=
    { tag := ['A'], runtime := ['x'], isUpper := ⟨'A', [], rfl, rfl⟩,
      isTagChar_of_mem := by simp [isTagChar],
      runtime_ne_nil := by decide, quote_not_mem := by decide, braceFree := ⟨by decide, by decide⟩ }
  let condition : HeaderText := ⟨[' ', 'a'], ⟨by decide, by decide⟩, by simp [isSpace]⟩
  let composition : Composition := .conditional condition (.element element .nil) .nil .nil
  let content := "\x7b\x7b@if a\x7d\x7d<A client=\"x\" />\x7b\x7b/if\x7d\x7d".toList
  let source :=
    "<template>\x7b\x7b@if a\x7d\x7d<A client=\"x\" />\x7b\x7b/if\x7d\x7d</template>".toList
  have hblock : (Extraction.of source).template = some ⟨⟨content, 0, 53⟩, 1⟩ := by rfl
  have hcontent : content = composition.text "client".toList := by rfl
  have hchain : composition.loopChain 0 ≤ 10 := by decide
  refine ⟨source, composition, element, _, rfl, hblock, hcontent, hchain, rfl, by decide, ?_, ?_⟩
  · exact hcontent ▸ components_process isAttributeName_default (by decide) hchain
  · exact filter_findings_process isAttributeName_default (by decide) hchain source hblock hcontent

end Composition

end

end Template

end ComponentFile
