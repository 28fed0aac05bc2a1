import ComponentFile.Proofs.Template.Attributes
import ComponentFile.Proofs.Template.Forest
import ComponentFile.Proofs.Template.Hosting
import Mathlib.Data.List.Nodup

/-!
# Directives that no text refers to

A component keeps the placeholders of its children and of the attributes that count. What its tag
mentions elsewhere is lost: in the value of an attribute that the tag gives again, or outside the
values, where a placeholder is cut up by its own white space and angle bracket. Nothing else is ever
lost: in a tidy template every other directive is mentioned in a text that hosts placeholders.
-/

namespace ComponentFile

namespace Template

/-- Inside a tag the placeholder does not reach the attributes. -/
inductive LostInTag (inside : Text) (placeholder : Placeholder) : Prop
  /-- It stands in a value whose name comes again. -/
  | repeated (before later : List (Text × AttributeValue)) (name value : Text)
      (hentries : attributeList (attributePart inside) = before ++ (name, .text value) :: later)
      (hvalue : placeholder ∈ Placeholder.references value) (hlater : name ∈ later.map Prod.fst)
  /-- It stands in no value. Then it ends with the bracket of the tag itself, or the tag is not
  written as a list of attributes. -/
  | unread (hmentioned : placeholder ∈ Placeholder.references (inside ++ ['>']))
      (hvalues : ∀ value ∈ valueTexts (attributeList (attributePart inside)),
        placeholder ∉ Placeholder.references value)
      (hwritten : ∀ attributes trailing, (∀ c ∈ trailing, isSpace c = true) →
        attributePart inside = attributesText attributes trailing →
          placeholder ∉ Placeholder.references inside)

-- a value without quotes: the tag ends with the bracket of the placeholder, and the value with its
-- first blank
example : LostInTag " client=react b=<!-- INTERPOLATION_0 --".toList ⟨"INTERPOLATION".toList, 0⟩ :=
  .unread (by decide) (by decide +kernel) fun _ _ _ _ => by decide

end Template

open Template

/-- The directive is a component in whose tag the placeholder does not reach the attributes. -/
def Directive.Loses (directive : Directive) (placeholder : Placeholder) : Prop :=
  ∃ tag runtime attributes children inside tail,
    directive.kind = .component tag runtime attributes children ∧
      directive.source = '<' :: tag ++ inside ++ '>' :: tail ∧
        cutTagEnd? none (inside ++ '>' :: tail) = some (inside, tail) ∧ LostInTag inside placeholder

namespace Template

/-! ## What a component keeps -/

/-- A slash at the end of a tag does not matter for what the tag mentions. -/
private theorem mem_references_attributePart {placeholder : Placeholder} {inside : Text}
    (h : placeholder ∈ Placeholder.references inside) :
    placeholder ∈ Placeholder.references (attributePart inside) := by
  unfold attributePart
  split
  · next hlast =>
    rw [beq_iff_eq] at hlast
    have hsplit := List.dropLast_append_getLast? '/' hlast
    rw [← hsplit, Placeholder.mem_references_append_cons_iff (by decide)] at h
    exact h.resolve_right List.not_mem_nil
  · exact h

/-- A placeholder in a tag reaches the attributes, or it is lost. -/
private theorem mem_references_or_lostInTag {placeholder : Placeholder} {inside : Text}
    (h : placeholder ∈ Placeholder.references (inside ++ ['>'])) :
    (∃ value ∈ valueTexts (attributesOf (attributePart inside)),
      placeholder ∈ Placeholder.references value) ∨ LostInTag inside placeholder := by
  by_cases hvalue : ∃ value ∈ valueTexts (attributeList (attributePart inside)),
    placeholder ∈ Placeholder.references value
  · obtain ⟨value, hm, hp⟩ := hvalue
    obtain ⟨⟨name, content⟩, hentry, hcontent⟩ := List.mem_filterMap.mp hm
    cases content with
    | flag => cases hcontent
    | text content =>
      obtain rfl : content = value := Option.some.inj hcontent
      obtain ⟨before, later, hentries⟩ := List.append_of_mem hentry
      by_cases hlater : name ∈ later.map Prod.fst
      · exact .inr (.repeated before later name content hentries hp hlater)
      · have hmem := Dictionary.mem_ofList hentries hlater
        exact .inl ⟨content, List.mem_filterMap.mpr ⟨_, hmem, rfl⟩, hp⟩
  · refine .inr (.unread h (fun value hm hp => hvalue ⟨value, hm, hp⟩) ?_)
    intro attributes trailing htrailing hpart hp
    have hread := mem_references_attributePart hp
    rw [hpart] at hread
    apply hvalue
    rw [hpart, attributeList_attributesText attributes htrailing]
    exact exists_value_of_mem_references htrailing List.not_mem_nil hread

/-- A bracket before another character than that of a comment starts no placeholder. -/
theorem mem_references_of_bracket {placeholder : Placeholder} {c : Char} {front rest : Text}
    (hc : c ≠ '!') (hfree : '<' ∉ c :: front)
    (h : placeholder ∈ Placeholder.references ('<' :: (c :: front ++ rest))) :
    placeholder ∈ Placeholder.references rest := by
  have hopening : ¬Placeholder.opening <+: '<' :: (c :: front ++ rest) := by
    rintro ⟨back, he⟩
    injection he with _ he
    injection he with he _
    exact hc he.symm
  have hnone : Placeholder.recognise ('<' :: (c :: front ++ rest)) = none := by
    rw [Placeholder.recognise, Text.after?_eq_none_iff.mpr hopening]
    rfl
  rwa [Placeholder.references_cons, hnone, Option.map_none, Option.toList_none, List.nil_append,
    Placeholder.references_append_of_not_mem hfree] at h

namespace Component.IsRead

variable {found : Component} {source inside tail : Text} (h : found.IsRead source inside tail)
  {placeholder : Placeholder}

include h

/-- The name of a component has no angle bracket. -/
theorem not_mem_tag : '<' ∉ found.tag := fun hm => absurd (h.isTagChar_of_mem _ hm) (by decide)

/-- A tag mentions only what stands behind its name. -/
theorem mem_references_inside
    (hp : placeholder ∈ Placeholder.references ('<' :: found.tag ++ (inside ++ ['>']))) :
    placeholder ∈ Placeholder.references (inside ++ ['>']) := by
  have hfree := h.not_mem_tag
  obtain ⟨c, name, htag, hc⟩ := h.isUpper
  rw [htag] at hp hfree
  refine mem_references_of_bracket ?_ hfree hp
  rintro rfl
  exact absurd hc (by decide)

/-- What follows the tag mentions only what the children mention. -/
theorem mem_references_children (hp : placeholder ∈ Placeholder.references tail) :
    placeholder ∈ Placeholder.references found.children := by
  rcases h.tail_eq with ⟨rfl, -⟩ | ⟨children, rfl, hchildren⟩
  · cases hp
  · have hsealed : Placeholder.Sealed children ('<' :: '/' :: found.tag ++ ['>']) :=
      .inl fun c hc => .inl (Option.some.inj hc).symm
    have hfree : '<' ∉ '/' :: (found.tag ++ ['>']) := by
      rw [List.mem_cons, List.mem_append, List.mem_singleton, not_or, not_or]
      exact ⟨by decide, h.not_mem_tag, by decide⟩
    rw [Placeholder.mem_references_append_iff hsealed] at hp
    rw [hchildren, Placeholder.mem_references_trim_iff]
    refine hp.resolve_right fun hclosing => ?_
    rw [← List.append_nil ('<' :: '/' :: found.tag ++ ['>'])] at hclosing
    cases mem_references_of_bracket (by decide) hfree hclosing

/-- A component keeps what its source mentions, except what is lost in its tag. -/
theorem hosts_or_lostInTag (hp : placeholder ∈ Placeholder.references source) :
    (∃ host ∈
        (DirectiveKind.component found.tag found.runtime found.attributes found.children).hosts,
      placeholder ∈ Placeholder.references host) ∨ LostInTag inside placeholder := by
  have hsplit : source = ('<' :: found.tag ++ (inside ++ ['>'])) ++ tail := by
    rw [h.source_eq]
    simp only [List.append_assoc, List.cons_append, List.nil_append]
  have hsealed : Placeholder.Sealed ('<' :: found.tag ++ (inside ++ ['>'])) tail := by
    right
    intro c hc
    rw [← List.append_assoc, List.getLast?_concat] at hc
    exact .inl (Option.some.inj hc).symm
  rw [hsplit, Placeholder.mem_references_append_iff hsealed] at hp
  rw [hosts_component]
  rcases hp with hp | hp
  · rcases mem_references_or_lostInTag (h.mem_references_inside hp) with ⟨value, hvalue, hm⟩ | hlost
    · rw [← h.attributes_eq] at hvalue
      exact .inl ⟨value, List.mem_cons_of_mem _ hvalue, hm⟩
    · exact .inr hlost
  · exact .inl ⟨found.children, List.mem_cons_self, h.mem_references_children hp⟩

end Component.IsRead

/-! ## Taking out components -/

private theorem exists_directive_of_mem {α : Type} {build : α → Registry → DirectiveKind × Registry}
    (hgrows : ∀ value registry, registry.toList <+: (build value registry).2.toList)
    {segments : List (Segment α)} {source : Text} {value : α} (hm : .item source value ∈ segments)
    (offset : Nat) (registry : Registry) :
    ∃ directive ∈ (Registry.replaceFrom build offset segments registry).2.toList,
      directive.source = source ∧ ∃ earlier, directive.kind = (build value earlier).1 := by
  induction segments generalizing offset registry with
  | nil => cases hm
  | cons segment rest ih =>
    cases segment with
    | char c => exact ih (by simpa using hm) (offset + c.utf8Size) registry
    | item other found =>
      rcases List.mem_cons.mp hm with he | hm
      · obtain ⟨rfl, rfl⟩ := Segment.item.inj he
        let directive : Directive :=
          { index := (build value registry).2.size, kind := (build value registry).1,
            start := offset,
            stop := offset + source.byteSize, source }
        refine ⟨directive, ?_, rfl, registry, rfl⟩
        refine (Registry.isPrefix_replaceFrom hgrows (offset + source.byteSize) rest _).subset ?_
        rw [Array.toList_push]
        exact List.mem_append_right _ List.mem_cons_self
      · exact ih hm _ _

private theorem conserved_component {lost : Placeholder → Prop} {source inside tail : Text}
    {found : Component} (h : found.IsRead source inside tail)
    (hlost : ∀ placeholder, LostInTag inside placeholder → lost placeholder) :
    Conserved lost (fun found registry =>
      (.component found.tag found.runtime found.attributes found.children, registry))
        source found := by
  intro registry _
  refine ⟨fun placeholder hp => ?_, fun directive hm => .inl hm⟩
  rcases hosted_iff.mp hp with ⟨text, ht, hm⟩ | hp
  · rw [List.mem_singleton.mp ht] at hm
    rcases h.hosts_or_lostInTag hm with hhosts | hin
    · exact .inl (hosted_iff.mpr (.inl hhosts))
    · exact .inr (hlost placeholder hin)
  · exact .inl (hosted_iff.mpr (.inr hp))

/-- Taking out components loses what is lost in their tags. -/
theorem keeps_replaceComponents (runtimeName text : Text) (registry : Registry)
    (hbound : (replaceComponents runtimeName text registry).2.size ≤ Placeholder.indexBound) :
    Keeps (fun placeholder => ∃ directive ∈ (replaceComponents runtimeName text registry).2.toList,
        directive.Loses placeholder)
      [text] registry [(replaceComponents runtimeName text registry).1]
      (replaceComponents runtimeName text registry).2 := by
  set lost : Placeholder → Prop := fun placeholder =>
    ∃ directive ∈ (replaceComponents runtimeName text registry).2.toList,
      directive.Loses placeholder
    with hlost
  let build (found : Component) (registry : Registry) : DirectiveKind × Registry :=
    (.component found.tag found.runtime found.attributes found.children, registry)
  have hgrows (found : Component) (registry : Registry) :
      registry.toList <+: (build found registry).2.toList := List.prefix_rfl
  have hitem (source : Text) (found : Component)
      (hm : .item source found ∈ Segment.segments (component runtimeName) text) :
      Bracketed source ∧ Conserved lost build source found := by
    obtain ⟨rest, length, hr, hsource⟩ := Segment.exists_of_mem_scan hm
    obtain ⟨inside, tail, hread⟩ := isRead_of_component hr
    rw [← hsource] at hread
    refine ⟨((replaceable_component hread.hasSource) #[]).1.bracketed, conserved_component hread ?_⟩
    intro placeholder hin
    obtain ⟨directive, hdirective, rfl, _, hkind⟩ := exists_directive_of_mem hgrows hm 0 registry
    exact ⟨directive, hdirective, _, _, _, _, inside, tail, hkind, hread.source_eq,
      hread.cutTagEnd?_eq, hin⟩
  have hkeeps := keeps_replaceFrom hgrows hitem [] 0 registry hbound
  rwa [List.nil_append, Segment.sources_segments, List.nil_append] at hkeeps

end Template

/-! ## Processed templates -/

namespace ProcessedTemplate

/-- A text that hosts placeholders mentions the directive. -/
def Mentions (template : ProcessedTemplate) (directive : Directive) : Prop :=
  ∃ host ∈ template.hosts, directive.placeholder ∈ Placeholder.references host

/-- If all directives are mentioned there are as many placeholders as directives. -/
theorem length_placeholders (settings : Settings) {text : Text} (habsent : Placeholder.Absent text)
    (h : ∀ directive ∈ (process settings text).directives.toList,
      (process settings text).Mentions directive) :
    (process settings text).placeholders.length = (process settings text).directives.size := by
  have hsub := subperm_directives settings habsent
  have hnodup : ((process settings text).directives.toList.map Directive.placeholder).Nodup := by
    have hindices := nodup_of_subperm (ordered_process settings habsent).1 (List.Subperm.refl _)
    exact hindices.of_map _
  have hall : (process settings text).directives.toList.map Directive.placeholder ⊆
      (process settings text).hosts.flatMap Placeholder.references := by
    intro placeholder hm
    obtain ⟨directive, hdirective, rfl⟩ := List.mem_map.mp hm
    exact List.mem_flatMap.mpr (h directive hdirective)
  have hlength := hsub.length_le.antisymm (hnodup.subperm hall).length_le
  rwa [← map_toPlaceholder_placeholders, List.length_map, List.length_map,
    Array.length_toList] at hlength

end ProcessedTemplate

/-- A component that is given the attribute `b` twice. -/
def repeatedAttribute : Text :=
  "<A client=\"react\" b=\"\x7b\x7bc\x7d\x7d\" b=\"\x7b\x7bd\x7d\x7d\" />".toList

end ComponentFile
