import ComponentFile.Proofs.Template.Forest

/-!
# Expanding placeholders

Expanding a text puts the source of its directive in the place of every placeholder, and expands
that source in turn. Since a source mentions earlier directives only, this ends
(`wellFounded_refers`), and since no pass cuts a placeholder in two, every single replacement keeps
the expansion of the text. So the processed text of a template expands to the template, and a
processed body to its body: no pass loses, repeats or reorders text.
-/

namespace ComponentFile

namespace ProcessedTemplate

open Template

/-- Computes something from a text by following placeholders that are nested at most `depth` levels
deep: `step` computes it from what was computed from the texts of the directives referred to, and
`base` is used where the depth is exhausted. -/
def followTo {β : Type} (step : (Text → β) → Text → β) (base : Text → β) : Nat → Text → β
  | 0, text => base text
  | depth + 1, text => step (followTo step base depth) text

/-- Follows all placeholders. No chain of directives is longer than the list of them. -/
def follow {β : Type} (template : ProcessedTemplate) (step : (Text → β) → Text → β)
    (base : Text → β) :
    Text → β :=
  followTo step base template.directives.size

/-- The step asks for the texts of directives that its text refers to, and for no others. -/
structure IsLocal {β : Type} (template : ProcessedTemplate) (step : (Text → β) → Text → β)
    (base : Text → β) : Prop where
  congr : ∀ inner other text,
    (∀ placeholder ∈ Placeholder.references text, ∀ directive,
      template.resolve? placeholder = some directive →
        ∀ host ∈ directive.source :: directive.kind.hosts, inner host = other host) →
    step inner text = step other text
  base : ∀ inner text,
    (∀ placeholder ∈ Placeholder.references text, template.resolve? placeholder = none) →
    step inner text = base text

/-- Puts a text for each directive that a text refers to in the place of the placeholder. -/
def expandWith (template : ProcessedTemplate) (inner : Directive → Text) (text : Text) : Text :=
  (Segment.segments Placeholder.recognise text).flatMap fun
    | .char c => [c]
    | .item source placeholder => ((template.resolve? placeholder).map inner).getD source

/-- Expands all placeholders of a text: the source of the directive, expanded itself, takes the
place of the placeholder. -/
def expand (template : ProcessedTemplate) : Text → Text :=
  template.follow (fun inner => template.expandWith fun directive => inner directive.source)
    fun text => text

/-- The source of the directive `outer` refers to `inner`. -/
def Refers (template : ProcessedTemplate) (inner outer : Directive) : Prop :=
  outer ∈ template.directives.toList ∧
    ∃ found ∈ Placeholder.findAll outer.source,
      template.resolve? found.toPlaceholder = some inner

/-- A function on texts that expands placeholders by itself. -/
def IsExpansion (template : ProcessedTemplate) (expansion : Text → Text) : Prop :=
  ∀ text, expansion text =
    template.expandWith (fun directive => expansion directive.source) text

/-- Placeholders refer to directives of the template. -/
theorem mem_of_resolve? {template : ProcessedTemplate} {placeholder : Placeholder}
    {directive : Directive} (hr : template.resolve? placeholder = some directive) :
    directive ∈ template.directives.toList := by
  have hget := (Option.filter_eq_some_iff.mp hr).1
  rw [← Array.getElem?_toList] at hget
  exact List.mem_of_getElem? hget

/-- A placeholder that refers to a directive has the index of the directive. -/
theorem index_of_resolve? {template : ProcessedTemplate} (h : Ordered template.directives)
    {placeholder : Placeholder} {directive : Directive}
    (hr : template.resolve? placeholder = some directive) :
    directive.index = placeholder.index ∧ placeholder.index < template.directives.size := by
  have hget := (Option.filter_eq_some_iff.mp hr).1
  refine ⟨h.index_eq hget, ?_⟩
  by_contra hge
  rw [Array.getElem?_eq_none (by omega)] at hget
  cases hget

/-- References lead to smaller indices, so that following them ends. -/
theorem wellFounded_refers {template : ProcessedTemplate} (h : Ordered template.directives) :
    WellFounded template.Refers := by
  refine Subrelation.wf ?_ (measure Directive.index).wf
  rintro inner outer ⟨houter, found, hfound, hr⟩
  obtain ⟨hindex, _⟩ := index_of_resolve? h hr
  change inner.index < outer.index
  rw [hindex]
  exact h.earlier outer houter outer.source List.mem_cons_self _ (List.mem_map_of_mem hfound)

/-- Expanding depends only on what is put in for the directives that the text refers to. -/
theorem expandWith_congr {template : ProcessedTemplate} {inner other : Directive → Text}
    {text : Text}
    (h : ∀ placeholder ∈ Placeholder.references text, ∀ directive,
      template.resolve? placeholder = some directive → inner directive = other directive) :
    template.expandWith inner text = template.expandWith other text := by
  refine List.flatMap_congr fun segment hm => ?_
  cases segment with
  | char c => rfl
  | item source placeholder =>
    have hp : placeholder ∈ Placeholder.references text := by
      rw [Placeholder.references_eq_values]
      exact Segment.mem_values_of_mem hm
    cases hr : template.resolve? placeholder with
    | none => simp only [hr, Option.map_none]
    | some directive => simp only [hr, Option.map_some, h placeholder hp directive hr]

/-- Expanding a text that refers to no directive changes nothing. -/
theorem expandWith_eq_self {template : ProcessedTemplate} {inner : Directive → Text} {text : Text}
    (h : ∀ placeholder ∈ Placeholder.references text, template.resolve? placeholder = none) :
    template.expandWith inner text = text := by
  have hsources : template.expandWith inner text =
      Segment.sources (Segment.segments Placeholder.recognise text) := by
    refine List.flatMap_congr fun segment hm => ?_
    cases segment with
    | char c => rfl
    | item source placeholder =>
      have hp : placeholder ∈ Placeholder.references text := by
        rw [Placeholder.references_eq_values]
        exact Segment.mem_values_of_mem hm
      simp only [h placeholder hp, Option.map_none, Option.getD_none, Segment.source]
  rw [hsources, Segment.sources_segments]

/-- A depth beyond the indices that a text refers to is enough. -/
private theorem followTo_eq_of_le {β : Type} {template : ProcessedTemplate}
    {step : (Text → β) → Text → β} {base : Text → β} (hlocal : template.IsLocal step base)
    (h : Ordered template.directives) {depth deeper : Nat} (hle : depth ≤ deeper) {text : Text}
    (hbound : ∀ placeholder ∈ Placeholder.references text, ∀ directive,
      template.resolve? placeholder = some directive → placeholder.index < depth) :
    followTo step base deeper text = followTo step base depth text := by
  induction depth generalizing deeper text with
  | zero =>
    cases deeper with
    | zero => rfl
    | succ deeper =>
      refine hlocal.base _ _ fun placeholder hp => ?_
      cases hr : template.resolve? placeholder with
      | none => rfl
      | some directive => exact absurd (hbound placeholder hp directive hr) (Nat.not_lt_zero _)
  | succ depth ih =>
    obtain ⟨deeper, rfl⟩ : ∃ more, deeper = more + 1 := ⟨deeper - 1, by omega⟩
    refine hlocal.congr _ _ _ fun placeholder hp directive hr host hhost => ih (by omega) ?_
    intro other hother next hnext
    obtain ⟨hindex, _⟩ := index_of_resolve? h hr
    have hlt := h.earlier directive (mem_of_resolve? hr) host hhost other hother
    have hdepth := hbound placeholder hp directive hr
    omega

/-- Following placeholders obeys its own recursion. -/
theorem follow_eq {β : Type} {template : ProcessedTemplate} {step : (Text → β) → Text → β}
    {base : Text → β} (hlocal : template.IsLocal step base) (h : Ordered template.directives)
    (text : Text) : template.follow step base text = step (template.follow step base) text :=
  (followTo_eq_of_le hlocal h (Nat.le_succ _) fun _ _ _ hr => (index_of_resolve? h hr).2).symm

/-- Every placeholder is replaced by the expanded source of its directive. -/
theorem isExpansion_expand {template : ProcessedTemplate} (h : Ordered template.directives) :
    template.IsExpansion template.expand := by
  refine fun text => follow_eq ⟨fun inner other text hsame => ?_, fun inner text hnone => ?_⟩ h text
  · exact expandWith_congr fun placeholder hp directive hr =>
      hsame placeholder hp directive hr directive.source List.mem_cons_self
  · exact expandWith_eq_self hnone

/-- There is one expansion only: two of them agree on the source of each directive, by induction
along the references, and hence on every text. -/
theorem IsExpansion.unique {template : ProcessedTemplate} (hwell : WellFounded template.Refers)
    {expansion other : Text → Text} (h : template.IsExpansion expansion)
    (hother : template.IsExpansion other) : expansion = other := by
  have hsource : ∀ directive ∈ template.directives.toList,
      expansion directive.source = other directive.source := by
    intro directive
    induction directive using hwell.induction with
    | _ directive ih =>
    intro hm
    rw [h, hother]
    refine expandWith_congr fun placeholder hp inner hr => ih inner ?_ (mem_of_resolve? hr)
    obtain ⟨found, hfound, rfl⟩ := List.mem_map.mp hp
    exact ⟨hm, found, hfound, hr⟩
  funext text
  rw [h, hother]
  exact expandWith_congr fun placeholder _ directive hr => hsource directive (mem_of_resolve? hr)

/-- Two texts are expanded independently on the two sides of a sealed place. -/
theorem IsExpansion.append {template : ProcessedTemplate} {expansion : Text → Text}
    (h : template.IsExpansion expansion) {left right : Text}
    (hseal : Placeholder.Sealed left right) :
    expansion (left ++ right) = expansion left ++ expansion right := by
  rw [h (left ++ right), h left, h right, expandWith, Placeholder.segments_append_of_sealed hseal,
    List.flatMap_append]
  rfl

/-- A rendered placeholder expands to the expanded source of its directive. -/
theorem IsExpansion.render {template : ProcessedTemplate} {expansion : Text → Text}
    (h : template.IsExpansion expansion) {directive : Directive}
    (hr : template.resolve? directive.placeholder = some directive)
    (hb : directive.index < Placeholder.indexBound) :
    expansion directive.placeholder.render = expansion directive.source := by
  rw [h, expandWith, Placeholder.segments_render directive.isMarker_placeholder hb]
  simp only [List.flatMap_cons, List.flatMap_nil, hr, Option.map_some, Option.getD_some,
    List.append_nil]

/-- Replacing the source of a directive by its placeholder keeps the expansion of the text. -/
theorem IsExpansion.replace {template : ProcessedTemplate} {expansion : Text → Text}
    (h : template.IsExpansion expansion) {directive : Directive} {bodies : List Text}
    (hr : template.resolve? directive.placeholder = some directive)
    (hb : directive.index < Placeholder.indexBound) (hsource : IsSource directive.source bodies)
    (before after : Text) :
    expansion (before ++ directive.placeholder.render ++ after) =
      expansion (before ++ directive.source ++ after) := by
  have hrendered := h.append (Placeholder.sealed_render_append before directive.placeholder [])
  rw [List.append_nil] at hrendered
  rw [h.append (Placeholder.sealed_append_render before directive.placeholder after), hrendered,
    h.render hr hb, h.append (hsource.sealed_right before after)]
  have hfront := h.append (hsource.sealed_left before [])
  rw [List.append_nil] at hfront
  rw [hfront]

/-- Along every run the texts keep their expansions, and the hosts of each new directive expand to
what its bodies expand to. -/
theorem IsExpansion.rewrites {template : ProcessedTemplate} {expansion : Text → Text}
    (h : template.IsExpansion expansion) (hordered : Ordered template.directives)
    (hsize : template.directives.size ≤ Placeholder.indexBound)
    {texts others : List Text} {registry final : Registry}
    (hrun : Rewrites texts registry others final)
    (hfinal : final.toList <+: template.directives.toList)
    (hregistry : ∀ directive ∈ registry.toList,
      directive.kind.hosts.map expansion = directive.kind.bodies.map expansion) :
    others.map expansion = texts.map expansion ∧
      ∀ directive ∈ final.toList,
        directive.kind.hosts.map expansion = directive.kind.bodies.map expansion := by
  induction hrun with
  | refl => exact ⟨rfl, hregistry⟩
  | @step registry grown final texts left before after right directive hindex hsource _ hnext
      ihbodies ihnext =>
    have hpush : (grown.push directive).toList <+: template.directives.toList :=
      hnext.isPrefix.trans hfinal
    have hgrown : grown.toList <+: template.directives.toList := by
      rw [Array.toList_push] at hpush
      exact (List.prefix_append _ _).trans hpush
    obtain ⟨hhosts, hold⟩ := ihbodies hgrown hregistry
    have hmem : directive ∈ template.directives.toList :=
      hpush.subset (by rw [Array.toList_push]; exact List.mem_append_right _ List.mem_cons_self)
    have hbound : directive.index < Placeholder.indexBound := by
      have hlength := hpush.length_le
      rw [Array.length_toList, Array.size_push, Array.length_toList] at hlength
      omega
    have hsame := h.replace (resolve?_placeholder hordered hmem) hbound hsource before after
    obtain ⟨htexts, hall⟩ := ihnext hfinal (by
      intro other hother
      rw [Array.toList_push, List.mem_append, List.mem_singleton] at hother
      rcases hother with hother | rfl
      · exact hold other hother
      · exact hhosts)
    refine ⟨?_, hall⟩
    rw [htexts, List.map_append, List.map_append, List.map_cons, List.map_cons, hsame]

/-- Expanding the placeholders of a processed template takes back what processing did to `text`. -/
structure Restores (template : ProcessedTemplate) (text : Text) : Prop where
  /-- Following placeholders from source to source ends. -/
  wellFounded : WellFounded template.Refers
  /-- Every placeholder expands to the expanded source of its directive, and this determines all. -/
  expansion : ∀ expansion, template.IsExpansion expansion ↔ expansion = template.expand
  /-- The processed text expands to the text. -/
  content : template.expand template.content = text
  /-- A processed arm expands to what the arm expands to. -/
  branch : ∀ directive ∈ template.directives.toList, ∀ condition branches,
    directive.kind = .conditional condition branches → ∀ branch ∈ branches,
      template.expand branch.processedBody = template.expand branch.body
  /-- A processed loop body expands to what the body expands to. -/
  loop : ∀ directive ∈ template.directives.toList, ∀ iterable item indexName body processedBody,
    directive.kind = .loop iterable item indexName body processedBody →
      template.expand processedBody = template.expand body

end ProcessedTemplate

open Template ProcessedTemplate in
/-- Processing loses, repeats and reorders nothing: expanding the placeholders gives the template
back, for all settings. A template that fits into memory has fewer bytes than there are indices. -/
theorem restores_process (settings : Settings) {text : Text}
    (hfits : text.byteSize < Placeholder.indexBound) (h : Placeholder.Absent text) :
    (process settings text).Restores text := by
  obtain ⟨hordered, _⟩ := ordered_process settings h
  have hwell := wellFounded_refers hordered
  have hexpand := isExpansion_expand hordered
  have hsize : (process settings text).directives.size ≤ Placeholder.indexBound := by
    have hle := size_directives_le settings text
    have hbytes := text.length_le_byteSize
    omega
  obtain ⟨hcontent, hhosts⟩ := hexpand.rewrites hordered hsize (rewrites_process settings text)
    (List.prefix_refl _) fun directive hm => by cases hm
  refine ⟨hwell, fun expansion => ⟨fun he => he.unique hwell hexpand, ?_⟩, ?_, ?_, ?_⟩
  · rintro rfl
    exact hexpand
  · simp only [List.map_cons, List.map_nil, List.cons.injEq, and_true] at hcontent
    rw [hcontent, hexpand]
    refine expandWith_eq_self fun placeholder hp => ?_
    rw [Placeholder.references_eq_nil_of_absent h] at hp
    cases hp
  · intro directive hm condition branches hkind branch hbranch
    have hsame := hhosts directive hm
    simp only [hkind, DirectiveKind.hosts, DirectiveKind.bodies, List.map_map] at hsame
    exact List.map_inj_left.mp hsame branch hbranch
  · intro directive hm iterable item indexName body processedBody hkind
    have hsame := hhosts directive hm
    simpa only [hkind, DirectiveKind.hosts, DirectiveKind.bodies, List.map_cons, List.map_nil,
      List.cons.injEq, and_true] using hsame

/-- A loop that ends outside the conditional it begins in, and a component that is never closed. -/
theorem restores_process_unbalanced :
    let text : Text :=
      ("<A client>\x7b\x7b@if b\x7d\x7d\x7b\x7b@each c as d\x7d\x7d\x7b\x7be\x7d\x7d" ++
      "\x7b\x7b/if\x7d\x7d\x7b\x7b/each\x7d\x7d").toList
    text.byteSize < Placeholder.indexBound ∧ Placeholder.Absent text ∧
      (Template.process {} text).Restores text := by
  intro text
  have hfits : text.byteSize < Placeholder.indexBound := by decide
  have habsent : Placeholder.Absent text := Placeholder.absent_of_references_eq_nil (by decide)
  exact ⟨hfits, habsent, restores_process {} hfits habsent⟩

end ComponentFile
