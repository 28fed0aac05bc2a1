import ComponentFile.Proofs.Template.Limit
import ComponentFile.Proofs.Template.Tidy

/-!
# Directives keep their placeholders

A placeholder is hosted as long as one of the texts under work or a text of a directive mentions it.
Taking out block directives and interpolations of a tidy text loses no hosted placeholder and hosts
those of the new directives. Taking out components may lose some; which ones is left open here
(`lost`).
-/

namespace ComponentFile.Template

/-- One of the texts or a text of a directive mentions the placeholder. -/
def Hosted (texts : List Text) (registry : Registry) (placeholder : Placeholder) : Prop :=
  ∃ text ∈ texts ++ hosted registry, placeholder ∈ Placeholder.references text

/-- A hosted placeholder is mentioned in the texts or by a directive. -/
theorem hosted_iff {texts : List Text} {registry : Registry} {placeholder : Placeholder} :
    Hosted texts registry placeholder ↔
      (∃ text ∈ texts, placeholder ∈ Placeholder.references text) ∨
        ∃ text ∈ hosted registry, placeholder ∈ Placeholder.references text := by
  simp only [Hosted, List.mem_append, or_and_right, exists_or]

/-- A run loses no hosted placeholder except those in `lost`, and hosts those of the new
directives. -/
structure Keeps (lost : Placeholder → Prop) (texts : List Text) (registry : Registry)
    (others : List Text) (final : Registry) : Prop where
  /-- What was hosted is hosted. -/
  hosted : ∀ placeholder, Hosted texts registry placeholder →
    Hosted others final placeholder ∨ lost placeholder
  /-- New directives are hosted. -/
  added : ∀ directive ∈ final.toList, directive ∈ registry.toList ∨
    Hosted others final directive.placeholder ∨ lost directive.placeholder

namespace Keeps

variable {lost : Placeholder → Prop}

/-- Nothing is lost where nothing is done. -/
theorem refl (texts : List Text) (registry : Registry) : Keeps lost texts registry texts registry :=
  ⟨fun _ h => .inl h, fun _ h => .inl h⟩

/-- Runs can be put one after the other. -/
theorem trans {texts middle others : List Text} {registry grown final : Registry}
    (h : Keeps lost texts registry middle grown) (hnext : Keeps lost middle grown others final) :
    Keeps lost texts registry others final where
  hosted := by
    intro placeholder hp
    rcases h.hosted placeholder hp with hp | hp
    · exact hnext.hosted placeholder hp
    · exact .inr hp
  added := by
    intro directive hm
    rcases hnext.added directive hm with hm | hm
    · rcases h.added directive hm with hm | hm | hm
      · exact .inl hm
      · exact .inr (hnext.hosted _ hm)
      · exact .inr (.inr hm)
    · exact .inr hm

/-- What is hosted with fewer texts is hosted with more. -/
theorem hosted_mono {texts others : List Text} {registry : Registry} {placeholder : Placeholder}
    (h : Hosted texts registry placeholder) (hsub : texts ⊆ others) :
    Hosted others registry placeholder := by
  rw [hosted_iff] at h ⊢
  exact h.imp (fun ⟨text, ht, hm⟩ => ⟨text, hsub ht, hm⟩) id

/-- A run from texts that mention more is a run from texts that mention less. -/
theorem of_mentions {texts others bodies : List Text} {registry final : Registry}
    (h : Keeps lost bodies registry others final)
    (hmore : ∀ text ∈ texts, ∀ placeholder ∈ Placeholder.references text,
      ∃ body ∈ bodies, placeholder ∈ Placeholder.references body) :
    Keeps lost texts registry others final := by
  refine ⟨fun placeholder hp => h.hosted placeholder (hosted_iff.mpr ?_), h.added⟩
  rcases hosted_iff.mp hp with ⟨text, ht, hm⟩ | hp
  · exact .inl (hmore text ht placeholder hm)
  · exact .inr hp

/-- Rewriting a first text and then the others loses nothing if neither step does. -/
theorem cons {text other : Text} {texts others : List Text} {registry grown final : Registry}
    (h : Keeps lost [text] registry [other] grown) (hnext : Keeps lost texts grown others final) :
    Keeps lost (text :: texts) registry (other :: others) final := by
  have hfirst (placeholder : Placeholder) (hp : Hosted [other] grown placeholder) :
      Hosted (other :: others) final placeholder ∨ lost placeholder := by
    rcases hosted_iff.mp hp with ⟨found, hfound, hm⟩ | hp
    · rw [List.mem_singleton.mp hfound] at hm
      exact .inl (hosted_iff.mpr (.inl ⟨other, List.mem_cons_self, hm⟩))
    · refine (hnext.hosted placeholder (hosted_iff.mpr (.inr hp))).imp_left fun hp => ?_
      exact hosted_mono hp (List.subset_cons_self _ _)
  have hrest (placeholder : Placeholder) (hp : Hosted others final placeholder) :
      Hosted (other :: others) final placeholder := hosted_mono hp (List.subset_cons_self _ _)
  constructor
  · intro placeholder hp
    rcases hosted_iff.mp hp with ⟨found, hfound, hm⟩ | hp
    · rcases List.mem_cons.mp hfound with rfl | hfound
      · rcases h.hosted placeholder (hosted_iff.mpr (.inl ⟨found, List.mem_cons_self, hm⟩)) with
          hp | hp
        · exact hfirst placeholder hp
        · exact .inr hp
      · exact (hnext.hosted placeholder (hosted_iff.mpr (.inl ⟨found, hfound, hm⟩))).imp_left
          (hrest placeholder)
    · rcases h.hosted placeholder (hosted_iff.mpr (.inr hp)) with hp | hp
      · exact hfirst placeholder hp
      · exact .inr hp
  · intro directive hm
    rcases hnext.added directive hm with hm | hp | hp
    · rcases h.added directive hm with hm | hp | hp
      · exact .inl hm
      · exact .inr (hfirst _ hp)
      · exact .inr (.inr hp)
    · exact .inr (.inl (hrest _ hp))
    · exact .inr (.inr hp)

end Keeps

/-! ## Replacing items -/

/-- The text stands in brackets or braces, so that no placeholder reaches over its ends. -/
structure Bracketed (source : Text) : Prop where
  first : ∀ c ∈ source.head?, c = '<' ∨ c = '{'
  last : ∀ c ∈ source.getLast?, c = '>' ∨ c = '}'
  ne_nil : source ≠ []

/-- The source of a directive stands in brackets or braces. -/
theorem IsSource.bracketed {source : Text} {bodies : List Text} (h : IsSource source bodies) :
    Bracketed source := by
  obtain ⟨rest, hstart, -⟩ := h.start
  refine ⟨fun c hc => ?_, h.stop, ?_⟩
  · cases hstart with
    | brace => exact .inr (Option.some.inj hc).symm
    | tag => exact .inl (Option.some.inj hc).symm
  · cases hstart <;> exact List.cons_ne_nil _ _

/-- A mute text stands in braces. -/
theorem Mute.bracketed {token : Text} (h : Mute token) : Bracketed token := by
  obtain ⟨mid, rfl⟩ := h.braces
  refine ⟨fun c hc => .inr (Option.some.inj hc).symm, fun c hc => .inr ?_, List.cons_ne_nil _ _⟩
  rw [← List.cons_append, List.getLast?_concat] at hc
  exact (Option.some.inj hc).symm

/-- What is mentioned around such a text is mentioned before it, in it or behind it. -/
theorem Bracketed.mem_references_iff {source : Text} (h : Bracketed source)
    {placeholder : Placeholder} {before after : Text} :
    placeholder ∈ Placeholder.references (before ++ source ++ after) ↔
      placeholder ∈ Placeholder.references before ∨ placeholder ∈ Placeholder.references source ∨
        placeholder ∈ Placeholder.references after := by
  have hleft : Placeholder.Sealed before (source ++ after) := by
    obtain ⟨c, rest, rfl⟩ := List.exists_cons_of_ne_nil h.ne_nil
    exact .inl h.first
  rw [List.append_assoc, Placeholder.mem_references_append_iff hleft,
    Placeholder.mem_references_append_iff (.inr h.last)]

/-- The item loses no placeholder when it becomes a directive. -/
def Conserved {α : Type} (lost : Placeholder → Prop)
    (build : α → Registry → DirectiveKind × Registry) (source : Text) (value : α) : Prop :=
  ∀ registry, (build value registry).2.size < Placeholder.indexBound →
    Keeps lost [source] registry (build value registry).1.hosts (build value registry).2

private theorem keeps_register {lost : Placeholder → Prop} {registry grown : Registry}
    (directive : Directive) (hindex : directive.index = grown.size)
    (hbound : grown.size < Placeholder.indexBound) (hsource : Bracketed directive.source)
    (h : Keeps lost [directive.source] registry directive.kind.hosts grown) (before after : Text) :
    Keeps lost [before ++ directive.source ++ after] registry
      [before ++ directive.placeholder.render ++ after] (grown.push directive) := by
  have hnew (placeholder : Placeholder) (hp : Hosted directive.kind.hosts grown placeholder) :
      Hosted [before ++ directive.placeholder.render ++ after]
        (grown.push directive) placeholder := by
    rw [hosted_iff, hosted_push]
    right
    obtain ⟨text, htext, hm⟩ := hp
    refine ⟨text, ?_, hm⟩
    rw [List.mem_append] at htext ⊢
    exact htext.symm
  have htext (placeholder : Placeholder)
      (hm : placeholder ∈
        Placeholder.references (before ++ directive.placeholder.render ++ after)) :
      Hosted [before ++ directive.placeholder.render ++ after] (grown.push directive) placeholder :=
    hosted_iff.mpr (.inl ⟨_, List.mem_cons_self, hm⟩)
  constructor
  · intro placeholder hp
    rcases hosted_iff.mp hp with ⟨found, hfound, hm⟩ | hp
    · rw [List.mem_singleton.mp hfound, hsource.mem_references_iff] at hm
      rcases hm with hm | hm | hm
      · left
        refine htext placeholder (Placeholder.references_subset_of_isInfix ?_ hm)
        rw [List.append_assoc]
        exact (List.prefix_append _ _).isInfix
      · have hp := h.hosted placeholder (hosted_iff.mpr (.inl ⟨_, List.mem_cons_self, hm⟩))
        exact hp.imp_left (hnew placeholder)
      · left
        exact htext placeholder
          (Placeholder.references_subset_of_isInfix (List.suffix_append _ _).isInfix hm)
    · exact (h.hosted placeholder (hosted_iff.mpr (.inr hp))).imp_left (hnew placeholder)
  · intro other hm
    rw [Array.toList_push, List.mem_append, List.mem_singleton] at hm
    rcases hm with hm | rfl
    · exact (h.added other hm).imp_right (Or.imp_left (hnew _))
    · right
      left
      refine htext _ (Placeholder.mem_references_render other.isMarker_placeholder ?_ before after)
      exact hindex.trans_lt hbound

/-- Replacing the items among segments loses no placeholder if no item does. -/
theorem keeps_replaceFrom {α : Type} {lost : Placeholder → Prop}
    {build : α → Registry → DirectiveKind × Registry}
    (hgrows : ∀ value registry, registry.toList <+: (build value registry).2.toList)
    {segments : List (Segment α)}
    (h : ∀ source value, .item source value ∈ segments → Bracketed source ∧
      Conserved lost build source value)
    (before : Text) (offset : Nat) (registry : Registry)
    (hbound : (Registry.replaceFrom build offset segments registry).2.size ≤
      Placeholder.indexBound) :
    Keeps lost [before ++ Segment.sources segments] registry
      [before ++ (Registry.replaceFrom build offset segments registry).1]
      (Registry.replaceFrom build offset segments registry).2 := by
  induction segments generalizing before offset registry with
  | nil => exact .refl _ _
  | cons segment rest ih =>
    have hrest := fun source value hm => h source value (List.mem_cons_of_mem _ hm)
    cases segment with
    | char c =>
      have hnext := ih hrest (before ++ [c]) (offset + c.utf8Size) registry hbound
      simpa only [Segment.sources_cons, Segment.source, Registry.replaceFrom, List.append_assoc,
        List.singleton_append] using hnext
    | item source value =>
      obtain ⟨hbracketed, hconserved⟩ := h source value List.mem_cons_self
      let directive : Directive :=
        { index := (build value registry).2.size, kind := (build value registry).1, start := offset,
          stop := offset + source.byteSize, source }
      let grown := (build value registry).2.push directive
      have hresult : Registry.replaceFrom build offset (.item source value :: rest) registry =
          (directive.placeholder.render ++
            (Registry.replaceFrom build (offset + source.byteSize) rest grown).1,
            (Registry.replaceFrom build (offset + source.byteSize) rest grown).2) := rfl
      rw [hresult] at hbound ⊢
      have hsize : grown.size ≤
          (Registry.replaceFrom build (offset + source.byteSize) rest grown).2.size := by
        simpa only [Array.length_toList] using
          (Registry.isPrefix_replaceFrom hgrows (offset + source.byteSize) rest grown).length_le
      have hpush : grown.size = (build value registry).2.size + 1 := Array.size_push _
      have hless : (build value registry).2.size < Placeholder.indexBound := by
        dsimp only at hbound
        omega
      have hstep := keeps_register directive rfl hless hbracketed
        (hconserved registry hless) before (Segment.sources rest)
      have hnext := ih hrest (before ++ directive.placeholder.render)
        (offset + source.byteSize) grown hbound
      rw [Segment.sources_cons, Segment.source, ← List.append_assoc, ← List.append_assoc]
      exact hstep.trans hnext

/-- A text stays tidy when items that start with braces are replaced. -/
private theorem tidy_replaceFrom {α : Type} {build : α → Registry → DirectiveKind × Registry}
    {segments : List (Segment α)}
    (h : ∀ source value, .item source value ∈ segments → opening <+: source) (before : Text)
    (offset : Nat) (registry : Registry) (htidy : Tidy (before ++ Segment.sources segments)) :
    Tidy (before ++ (Registry.replaceFrom build offset segments registry).1) := by
  induction segments generalizing before offset registry with
  | nil => exact htidy
  | cons segment rest ih =>
    have hrest := fun source value hm => h source value (List.mem_cons_of_mem _ hm)
    cases segment with
    | char c =>
      have hnext := ih hrest (before ++ [c]) (offset + c.utf8Size) registry (by
        simpa only [Segment.sources_cons, Segment.source, List.append_assoc] using htidy)
      simpa only [Registry.replaceFrom, List.append_assoc, List.singleton_append] using hnext
    | item source value =>
      let directive : Directive :=
        { index := (build value registry).2.size, kind := (build value registry).1, start := offset,
          stop := offset + source.byteSize, source }
      rw [Segment.sources_cons, Segment.source, ← List.append_assoc] at htidy
      have hreplaced := htidy.replace
        (h source value List.mem_cons_self) directive.isMarker_placeholder
      have hnext := ih hrest (before ++ directive.placeholder.render) (offset + source.byteSize)
        ((build value registry).2.push directive) hreplaced
      have hresult : (Registry.replaceFrom build offset (.item source value :: rest) registry).1 =
          directive.placeholder.render ++
            (Registry.replaceFrom build (offset + source.byteSize) rest
            ((build value registry).2.push directive)).1 := rfl
      rwa [hresult, ← List.append_assoc]

/-! ## Passes over block directives and interpolations -/

/-- The pass keeps tidy texts tidy and loses no placeholder of them. -/
def Conserves (lost : Placeholder → Prop) (pass : Pass) : Prop :=
  ∀ text registry, Tidy text → (pass text registry).2.size ≤ Placeholder.indexBound →
    Tidy (pass text registry).1 ∧
      Keeps lost [text] registry [(pass text registry).1] (pass text registry).2

/-- Replacing the items of a reading conserves when each item of a tidy text does. -/
theorem conserves_replace {α : Type} {lost : Placeholder → Prop}
    {build : α → Registry → DirectiveKind × Registry} {read : Text → List (Segment α)}
    (hsources : ∀ text, Segment.sources (read text) = text)
    (hgrows : ∀ value registry, registry.toList <+: (build value registry).2.toList)
    (hbraces : ∀ text source value, .item source value ∈ read text → opening <+: source)
    (hitem : ∀ text source value, Tidy text → .item source value ∈ read text →
      Bracketed source ∧ Conserved lost build source value) :
    Conserves lost fun text registry => registry.replace build (read text) := by
  intro text registry htidy hbound
  have hkeeps := keeps_replaceFrom hgrows (fun source value => hitem text source value htidy)
    [] 0 registry
    hbound
  rw [List.nil_append, hsources, List.nil_append] at hkeeps
  refine ⟨tidy_replaceFrom (hbraces text) [] 0 registry ?_, hkeeps⟩
  rwa [List.nil_append, hsources]

/-- The bodies of a tidy text are tidy. -/
theorem Tidy.body {text body : Text} (h : Tidy text) (hbody : IsBody text body) : Tidy body := by
  obtain ⟨front, rest, rfl, hpiece⟩ := hbody.exists_brace
  have hrest : rest <:+ front ++ '{' :: rest :=
    (List.suffix_cons _ _).trans (List.suffix_append _ _)
  exact h.of_isInfix (hpiece.trans hrest.isInfix)

section

variable {lost : Placeholder → Prop}

/-- A directive without texts of its own conserves when its source mentions nothing. -/
theorem conserved_of_silent {α : Type} {build : α → Registry → DirectiveKind × Registry}
    {source : Text} {value : α} (hbuild : ∀ registry, (build value registry).2 = registry)
    (hsource : Placeholder.references source = []) : Conserved lost build source value := by
  intro registry _
  rw [hbuild]
  refine ⟨fun placeholder hp => .inl ?_, fun directive hm => .inl hm⟩
  rcases hosted_iff.mp hp with ⟨text, ht, hm⟩ | hp
  · rw [List.mem_singleton.mp ht, hsource] at hm
    cases hm
  · exact hosted_iff.mpr (.inr hp)

/-- Block directives start with braces. -/
theorem isPrefix_opening_of_blockMark {source : Text} (h : blockMark <+: source) :
    opening <+: source :=
  List.IsPrefix.trans (by decide) h

private theorem conserves_replaceRawMarkup : Conserves lost replaceRawMarkup := by
  refine conserves_replace (Segment.sources_segments rawMarkup)
    (fun _ registry => List.prefix_refl registry.toList)
    (fun _ _ _ hm => isPrefix_opening_of_blockMark (isPrefix_of_mem_rawMarkup hm)) ?_
  intro text source content htidy hm
  have hmute := htidy.mute_rawMarkup hm
  exact ⟨hmute.bracketed, conserved_of_silent (fun _ => rfl) hmute.silent⟩

private theorem conserves_replaceInterpolations : Conserves lost replaceInterpolations := by
  refine conserves_replace (Segment.sources_segments interpolation)
    (fun _ registry => List.prefix_refl registry.toList)
      (fun _ _ _ => isPrefix_of_mem_interpolation) ?_
  intro text source expression htidy hm
  have hmute := htidy.mute_interpolation hm
  exact ⟨hmute.bracketed, conserved_of_silent (fun _ => rfl) hmute.silent⟩

variable {process : Pass} (hsound : Sound process) (hprocess : Conserves lost process)

include hsound hprocess

/-- Building the branches of arms loses no placeholder of their bodies. -/
private theorem keeps_branchesOf {arms : List Arm} (htidy : ∀ arm ∈ arms, Tidy arm.body.trim)
    (registry : Registry)
    (hbound : (branchesOf process arms registry).2.size ≤ Placeholder.indexBound) :
    Keeps lost ((arms.map Arm.body).map Text.trim) registry
      ((branchesOf process arms registry).1.map Branch.processedBody)
      (branchesOf process arms registry).2 := by
  induction arms generalizing registry with
  | nil => exact .refl _ _
  | cons arm arms ih =>
    have hrest := ih (fun other hm => htidy other (List.mem_cons_of_mem _ hm))
      (process arm.body.trim registry).2 hbound
    have hsize : (process arm.body.trim registry).2.size ≤
        (branchesOf process arms (process arm.body.trim registry).2).2.size := by
      simpa only [Array.length_toList] using (isPrefix_branchesOf hsound arms _).length_le
    have hfirst :=
      (hprocess arm.body.trim registry (htidy arm List.mem_cons_self) (hsize.trans hbound)).2
    exact hfirst.cons hrest

private theorem conserved_conditional {text source : Text} {conditional : Conditional}
    (htidy : Tidy text) (hm : .item source conditional ∈ conditionals text) :
    Conserved lost (conditionalKind process) source conditional := by
  intro registry hbound
  have hbody (body : Text) (hb : body ∈ conditional.bodies) : Tidy body.trim :=
    htidy.body (.conditional source conditional hm (List.mem_map_of_mem hb))
  have hrest := keeps_branchesOf hsound hprocess
    (fun arm harm => hbody arm.body (List.mem_cons_of_mem _ (List.mem_map_of_mem harm)))
    (process conditional.body.trim registry).2 hbound.le
  have hsize : (process conditional.body.trim registry).2.size ≤
      (branchesOf process conditional.arms (process conditional.body.trim registry).2).2.size := by
    simpa only [Array.length_toList] using (isPrefix_branchesOf hsound conditional.arms _).length_le
  have hfirst := (hprocess conditional.body.trim registry
    (hbody conditional.body List.mem_cons_self) (hsize.trans hbound.le)).2
  refine (hfirst.cons hrest).of_mentions fun other hother placeholder hp => ?_
  rw [List.mem_singleton.mp hother] at hp
  exact htidy.mem_references_conditional hm hp

private theorem conserves_replaceConditionals : Conserves lost (replaceConditionals process) := by
  refine conserves_replace sources_conditionals (isPrefix_conditionalKind hsound)
    (fun _ _ _ hm => isPrefix_opening_of_blockMark (isPrefix_of_mem_conditionals hm)) ?_
  intro text source conditional htidy hm
  have hreplace := replaceable_conditionalKind hsound (isRead_of_mem_conditionals hm).1
  exact ⟨(hreplace #[]).1.bracketed, conserved_conditional hsound hprocess htidy hm⟩

omit hsound in
private theorem conserved_loop {text source : Text} {loop : Loop} (htidy : Tidy text)
    (hm : .item source loop ∈ loops text) : Conserved lost (loopKind process) source loop := by
  intro registry hbound
  have hbody : Tidy loop.body.trim := htidy.body (.loop source loop hm rfl)
  have hkeeps := (hprocess loop.body.trim registry hbody hbound.le).2
  refine hkeeps.of_mentions fun other hother placeholder hp => ?_
  rw [List.mem_singleton.mp hother] at hp
  exact ⟨_, List.mem_cons_self, htidy.mem_references_loop hm hp⟩

private theorem conserves_replaceLoops : Conserves lost (replaceLoops process) := by
  refine conserves_replace sources_loops (isPrefix_loopKind hsound)
    (fun _ _ _ hm => isPrefix_opening_of_blockMark (isPrefix_of_mem_loops hm)) ?_
  intro text source loop htidy hm
  have hreplace := replaceable_loopKind hsound loop
  rw [← source_of_mem_loopsOf hm] at hreplace
  exact ⟨(hreplace #[]).1.bracketed, conserved_loop hprocess htidy hm⟩

end

/-- Two conserving steps in a row conserve. -/
theorem Conserves.trans {lost : Placeholder → Prop} {pass next : Pass} (hgrows : Sound next)
    (h : Conserves lost pass) (hnext : Conserves lost next) :
    Conserves lost fun text registry => next (pass text registry).1 (pass text registry).2 := by
  intro text registry htidy hbound
  have hsize : (pass text registry).2.size ≤
      (next (pass text registry).1 (pass text registry).2).2.size :=
    (hgrows _ _).size_le
  obtain ⟨hmiddle, hfirst⟩ := h text registry htidy (hsize.trans hbound)
  obtain ⟨hfinal, hsecond⟩ := hnext _ _ hmiddle hbound
  exact ⟨hfinal, hfirst.trans hsecond⟩

private theorem conserves_blockPass {lost : Placeholder → Prop} {process : Pass}
    (hsound : Sound process) (hprocess : Conserves lost process) :
    Conserves lost (blockPass process) :=
  ((conserves_replaceConditionals hsound hprocess).trans (sound_replaceLoops hsound)
    (conserves_replaceLoops hsound hprocess)).trans sound_replaceRawMarkup
      conserves_replaceRawMarkup

private theorem conserves_repeatPass {lost : Placeholder → Prop} {pass : Pass} (hsound : Sound pass)
    (hpass : Conserves lost pass) (limit : Nat) : Conserves lost (repeatPass pass limit) := by
  induction limit with
  | zero => exact fun text registry htidy _ => ⟨htidy, .refl _ _⟩
  | succ limit ih =>
    intro text registry htidy hbound
    have hboth := hpass.trans (sound_repeatPass hsound limit) ih text registry htidy
    rw [repeatPass] at hbound ⊢
    split at hbound
    next next grown he =>
    simp only [he] at hboth ⊢
    split at hbound
    · next hsize =>
      rw [if_pos hsize]
      have hone := hpass text registry htidy
      rw [he] at hone
      exact hone hbound
    · next hsize =>
      rw [if_neg hsize]
      exact hboth hbound

/-- Processing fragments conserves. -/
theorem conserves_processAt (lost : Placeholder → Prop) (limit depth : Nat) :
    Conserves lost (processAt limit depth) := by
  induction depth with
  | zero => exact fun text registry htidy _ => ⟨htidy, .refl _ _⟩
  | succ depth ih =>
    have hsound := sound_processAt limit depth
    exact (conserves_repeatPass (sound_blockPass hsound)
      (conserves_blockPass hsound ih) limit).trans
      sound_replaceInterpolations conserves_replaceInterpolations

end ComponentFile.Template
