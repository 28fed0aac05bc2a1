import ComponentFile.Proofs.Outline.Fitting
import ComponentFile.Proofs.Outline.Passes
import ComponentFile.Proofs.Template.Items
import ComponentFile.Proofs.Template.Processing

/-!
# Enough passes

Each block directive uses up an occurrence of the characters with which such directives start, and
no replacement makes a new one. So a pass over a text either finds nothing, and then changes
nothing, or leaves fewer occurrences. With as many passes as there are occurrences, the last one
finds nothing, and a larger limit makes no difference.
-/

namespace ComponentFile

namespace Text

/-- Joining two texts keeps the occurrences in both. -/
theorem occurrences_add_le (mark left right : Text) :
    occurrences mark left + occurrences mark right ≤ occurrences mark (left ++ right) := by
  induction left with
  | nil => rw [occurrences, Nat.zero_add, List.nil_append]
  | cons c left ih =>
    rw [List.cons_append, occurrences, occurrences]
    by_cases h : startsWith mark (c :: left) = true
    · have hmore : startsWith mark (c :: (left ++ right)) = true :=
        startsWith_iff.mpr ((startsWith_iff.mp h).trans (List.prefix_append (c :: left) right))
      rw [if_pos h, if_pos hmore]
      omega
    · rw [if_neg h]
      omega

private theorem occurrences_pos_of_isPrefix {mark text : Text} (hne : mark ≠ [])
    (h : mark <+: text) :
    0 < occurrences mark text := by
  cases text with
  | nil => exact absurd (List.prefix_nil.mp h) hne
  | cons c text =>
    rw [occurrences, if_pos (startsWith_iff.mpr h)]
    omega

end Text

namespace Template

/-! ## Measures of texts -/

/-- A measure that grows when texts are joined, and to which placeholders add nothing. -/
structure IsMeasure (size : Text → Nat) : Prop where
  add_le : ∀ left right, size left + size right ≤ size (left ++ right)
  insert_le : ∀ (before after : Text) (placeholder : Placeholder),
    Placeholder.isMarker placeholder.marker = true →
    size (before ++ placeholder.render ++ after) ≤ size before + size after

namespace IsMeasure

variable {size : Text → Nat} (hsize : IsMeasure size)

include hsize

/-- A connected piece measures at most as much as the text. -/
theorem le_of_isInfix {piece text : Text} (h : piece <:+: text) : size piece ≤ size text := by
  obtain ⟨front, back, rfl⟩ := h
  have hfront := hsize.add_le front piece
  have hback := hsize.add_le (front ++ piece) back
  omega

/-- Replacing sources by placeholders never adds to the measure. -/
theorem sum_le {texts others : List Text} {registry final : Registry}
    (h : Rewrites texts registry others final) : (others.map size).sum ≤ (texts.map size).sum := by
  induction h with
  | refl => exact Nat.le_refl _
  | step left before after right directive _ _ _ _ _ ih =>
    have hinsert :=
      hsize.insert_le before after directive.placeholder directive.isMarker_placeholder
    have hfront := hsize.add_le before directive.source
    have hback := hsize.add_le (before ++ directive.source) after
    simp only [List.map_append, List.map_cons, List.sum_append, List.sum_cons] at ih ⊢
    omega

/-- A sound pass never adds to the measure. -/
theorem le_of_rewrites {text next : Text} {registry final : Registry}
    (h : Rewrites [text] registry [next] final) : size next ≤ size text := by
  simpa only [List.map_cons, List.map_nil, List.sum_cons, List.sum_nil, Nat.add_zero]
    using hsize.sum_le h

/-- The bodies of all directives of a run measure at most as much as its texts. -/
theorem bodies_le {texts others : List Text} {registry final : Registry}
    (h : Rewrites texts registry others final) {bound : Nat}
    (htexts : ∀ text ∈ texts, size text ≤ bound) {directive : Directive}
    (hm : directive ∈ final.toList) :
    directive ∈ registry.toList ∨ ∀ body ∈ directive.kind.bodies, size body ≤ bound := by
  induction h with
  | refl => exact .inl hm
  | @step registry grown final texts left before after right found hindex hsource _
    _ hbodies hnext =>
    have htext := htexts (before ++ found.source ++ after)
      (List.mem_append_right _ List.mem_cons_self)
    have hfront := hsize.add_le before found.source
    have hback := hsize.add_le (before ++ found.source) after
    have hpieces := hsource.supplies.sum_le size hsize.add_le
    have hbody (body : Text) (hb : body ∈ found.kind.bodies) : size body ≤ bound := by
      have hle : size body ≤ (found.kind.bodies.map size).sum :=
        List.le_sum_of_mem (List.mem_map_of_mem hb)
      omega
    have hstep : ∀ text ∈ left ++ (before ++ found.placeholder.render ++ after) :: right,
        size text ≤ bound := by
      intro text ht
      rcases List.mem_append.mp ht with ht | ht
      · exact htexts text (List.mem_append_left _ ht)
      rcases List.mem_cons.mp ht with rfl | ht
      · have hinsert := hsize.insert_le before after found.placeholder found.isMarker_placeholder
        omega
      · exact htexts text (List.mem_append_right _ (List.mem_cons_of_mem _ ht))
    rcases hnext hstep hm with hm | hle
    · rw [Array.toList_push, List.mem_append, List.mem_singleton] at hm
      rcases hm with hm | rfl
      · exact hbodies hbody hm
      · exact .inr hbody
    · exact .inr hle

end IsMeasure

/-- The number of places at which a block directive can start. -/
def openers (text : Text) : Nat := Text.occurrences blockMark text

/-- A rendered placeholder has no opening brace. -/
theorem not_mem_render_brace {placeholder : Placeholder}
    (hm : Placeholder.isMarker placeholder.marker = true) : '{' ∉ placeholder.render := by
  obtain ⟨inner, he, hinner⟩ := Placeholder.render_edges hm
  intro hmem
  rw [he] at hmem
  simp only [List.mem_cons, List.mem_append, List.not_mem_nil, or_false, Char.reduceEq,
    false_or] at hmem
  exact absurd (hinner _ hmem) (by decide)

/-- Places at which a block directive can start are no part of placeholders. -/
theorem isMeasure_openers : IsMeasure openers where
  add_le := Text.occurrences_add_le blockMark
  insert_le := by
    intro before after placeholder hm
    obtain ⟨inner, he, hinner⟩ := Placeholder.render_edges hm
    have hne : blockMark ≠ [] := by decide
    have hrender : '{' ∉ '!' :: inner := by
      intro hmem
      apply not_mem_render_brace hm
      rw [he, List.mem_cons, ← List.cons_append, List.mem_append]
      exact .inr (.inl hmem)
    have hinner : Text.occurrences blockMark ('!' :: inner) = 0 := by
      refine Text.occurrences_eq_zero fun hpart => hrender ?_
      exact hpart.subset List.mem_cons_self
    have hangle : '<' ∉ blockMark := by decide
    have hclose : '>' ∉ blockMark := by decide
    have hsplit : before ++ placeholder.render ++ after =
        before ++ '<' :: (('!' :: inner) ++ '>' :: after) := by
      rw [he]
      simp only [List.append_assoc, List.cons_append, List.nil_append]
    rw [openers, hsplit, Text.occurrences_append_cons hangle hne,
      Text.occurrences_append_cons hclose hne, hinner, Nat.zero_add]
    exact Nat.le_refl _

/-- Opening braces are no part of placeholders. -/
theorem isMeasure_braces : IsMeasure braces where
  add_le := fun left right => Nat.le_of_eq (braces_append left right).symm
  insert_le := by
    intro before after placeholder hm
    have hnone : braces placeholder.render = 0 := List.count_eq_zero.mpr (not_mem_render_brace hm)
    rw [braces_append, braces_append, hnone, Nat.add_zero]

/-- A body has fewer braces than the text around it. -/
theorem IsBody.braces_lt {text body : Text} (h : IsBody text body) : braces body < braces text := by
  obtain ⟨front, rest, rfl, hbody⟩ := h.exists_brace
  have hle := braces_le_of_isInfix hbody
  have hbrace : braces ('{' :: rest) = braces rest + 1 := List.count_cons_self
  rw [braces_append]
  omega

/-- A body measures at most as much as the text around it. -/
theorem IsBody.size_le {size : Text → Nat} (hsize : IsMeasure size) {text body : Text}
    (h : IsBody text body) : size body ≤ size text := by
  obtain ⟨front, rest, rfl, hbody⟩ := h.exists_brace
  refine hsize.le_of_isInfix (hbody.trans ?_)
  exact ((List.suffix_cons _ _).trans (List.suffix_append _ _)).isInfix

/-! ## Passes that find nothing -/

/-- The reading has no item. -/
def IsPlain {α : Type} (segments : List (Segment α)) : Prop :=
  ∀ source value, .item source value ∉ segments

/-- Replacing changes nothing where there is no item. -/
theorem replaceFrom_of_isPlain {α : Type} {build : α → Registry → DirectiveKind × Registry}
    {segments : List (Segment α)} (h : IsPlain segments) (offset : Nat) (registry : Registry) :
    Registry.replaceFrom build offset segments registry = (Segment.sources segments, registry) := by
  induction segments generalizing offset with
  | nil => rfl
  | cons segment rest ih =>
    cases segment with
    | char c =>
      have hrest := ih (fun source value hm => h source value (List.mem_cons_of_mem _ hm))
        (offset + c.utf8Size)
      rw [Registry.replaceFrom, hrest, Segment.sources_cons]
      rfl
    | item source value => exact absurd List.mem_cons_self (h source value)

/-- Replacing items that start like block directives uses up such starts, one for each item. -/
private theorem openers_replaceFrom_le {α : Type} {build : α → Registry → DirectiveKind × Registry}
    {segments : List (Segment α)}
    (h : ∀ source value, .item source value ∈ segments → blockMark <+: source)
    (before : Text) (offset : Nat) (registry : Registry) :
    openers (before ++ (Registry.replaceFrom build offset segments registry).1) +
        (Segment.values segments).length ≤
      openers (before ++ Segment.sources segments) := by
  induction segments generalizing before offset registry with
  | nil => exact Nat.le_refl _
  | cons segment rest ih =>
    have hrest := fun source value hm => h source value (List.mem_cons_of_mem _ hm)
    cases segment with
    | char c =>
      have hnext := ih hrest (before ++ [c]) (offset + c.utf8Size) registry
      simpa only [Segment.sources_cons, Segment.source, Segment.values_char, Registry.replaceFrom,
        List.append_assoc, List.singleton_append] using hnext
    | item source value =>
      let directive : Directive :=
        { index := (build value registry).2.size, kind := (build value registry).1, start := offset,
          stop := offset + source.byteSize, source }
      have hnext := ih hrest (before ++ directive.placeholder.render) (offset + source.byteSize)
        ((build value registry).2.push directive)
      have hinsert := isMeasure_openers.insert_le before
        (Segment.sources rest) directive.placeholder
        directive.isMarker_placeholder
      have hone : 0 < openers source :=
        Text.occurrences_pos_of_isPrefix (by decide) (h source value List.mem_cons_self)
      have hfront := isMeasure_openers.add_le before source
      have hback := isMeasure_openers.add_le (before ++ source) (Segment.sources rest)
      have hresult : (Registry.replaceFrom build offset (.item source value :: rest) registry).1 =
          directive.placeholder.render ++
            (Registry.replaceFrom build (offset + source.byteSize) rest
            ((build value registry).2.push directive)).1 := rfl
      rw [Segment.sources_cons, Segment.values_item, List.length_cons, hresult, Segment.source,
        ← List.append_assoc, ← List.append_assoc]
      omega

/-- A step found nothing and changed nothing, or it added a directive and used up the start of
one. -/
def Progress (quiet : Text → Prop) (start result : Text × Registry) : Prop :=
  (quiet start.1 ∧ result = start) ∨
    (start.2.size < result.2.size ∧ openers result.1 < openers start.1)

/-- Two steps in a row find nothing only if both do. -/
theorem Progress.trans {quiet other : Text → Prop} {start middle result : Text × Registry}
    (h : Progress quiet start middle) (hnext : Progress other middle result) :
    Progress (fun text => quiet text ∧ other text) start result := by
  rcases h with ⟨hquiet, rfl⟩ | ⟨hsize, hless⟩
  · rcases hnext with ⟨hother, rfl⟩ | hadvance
    · exact .inl ⟨⟨hquiet, hother⟩, rfl⟩
    · exact .inr hadvance
  · right
    rcases hnext with ⟨-, rfl⟩ | ⟨hnextSize, hnextLess⟩
    · exact ⟨hsize, hless⟩
    · exact ⟨hsize.trans hnextSize, hnextLess.trans hless⟩

/-- Replacing the items of a reading makes progress. -/
theorem progress_replace {α : Type} {build : α → Registry → DirectiveKind × Registry}
    {read : Text → List (Segment α)} (hsources : ∀ text, Segment.sources (read text) = text)
    (hbuild : ∀ value registry, registry.toList <+: (build value registry).2.toList)
    (hmark : ∀ text source value, .item source value ∈ read text → blockMark <+: source)
    (text : Text) (registry : Registry) :
    Progress (fun text => IsPlain (read text)) (text, registry)
      (registry.replace build (read text)) := by
  by_cases h : IsPlain (read text)
  · left
    refine ⟨h, ?_⟩
    rw [Registry.replace, replaceFrom_of_isPlain h, hsources]
  · right
    unfold IsPlain at h
    push Not at h
    obtain ⟨source, value, hm⟩ := h
    have hgrows := Registry.length_lt_replaceFrom hbuild 0 hm registry
    have hcount : 0 < (Segment.values (read text)).length :=
      List.length_pos_of_mem (Segment.mem_values_of_mem hm)
    have hopeners : openers ([] ++ (registry.replace build (read text)).1) +
        (Segment.values (read text)).length ≤ openers ([] ++ Segment.sources (read text)) :=
      openers_replaceFrom_le (hmark text) [] 0 registry
    rw [List.nil_append, List.nil_append, hsources] at hopeners
    rw [Array.length_toList, Array.length_toList] at hgrows
    refine ⟨hgrows, ?_⟩
    dsimp only
    omega

/-- No pass over block directives finds anything in the text. -/
structure Settled (text : Text) : Prop where
  conditionals : IsPlain (conditionals text)
  loops : IsPlain (loops text)
  rawMarkup : IsPlain (Segment.segments rawMarkup text)

section

variable {process : Pass} (hprocess : Sound process)

include hprocess

/-- Building the branches of arms only adds directives. -/
theorem isPrefix_branchesOf (arms : List Arm) (registry : Registry) :
    registry.toList <+: (branchesOf process arms registry).2.toList :=
  (rewrites_branchesOf hprocess arms registry).isPrefix

/-- Building a conditional only adds directives. -/
theorem isPrefix_conditionalKind (conditional : Conditional) (registry : Registry) :
    registry.toList <+: (conditionalKind process conditional registry).2.toList :=
  (hprocess.grows conditional.body.trim registry).trans (isPrefix_branchesOf hprocess _ _)

/-- Building a loop only adds directives. -/
theorem isPrefix_loopKind (loop : Loop) (registry : Registry) :
    registry.toList <+: (loopKind process loop registry).2.toList :=
  hprocess.grows loop.body.trim registry

/-- One pass over block directives makes progress. -/
theorem progress_blockPass (text : Text) (registry : Registry) :
    Progress Settled (text, registry) (blockPass process text registry) := by
  have hconditionals := progress_replace sources_conditionals (isPrefix_conditionalKind hprocess)
    (fun _ _ _ => isPrefix_of_mem_conditionals) text registry
  have hloops := progress_replace sources_loops (isPrefix_loopKind hprocess)
    (fun _ _ _ => isPrefix_of_mem_loops) (replaceConditionals process text registry).1
    (replaceConditionals process text registry).2
  have hraw (text : Text) (registry : Registry) :
      Progress (fun text => IsPlain (Segment.segments rawMarkup text)) (text, registry)
        (replaceRawMarkup text registry) :=
    progress_replace (Segment.sources_segments rawMarkup)
      (fun _ registry => List.prefix_refl registry.toList)
      (fun _ _ _ => isPrefix_of_mem_rawMarkup) text registry
  rcases (hconditionals.trans hloops).trans (hraw _ _) with
    ⟨⟨⟨hfirst, hsecond⟩, hthird⟩, hsame⟩ | hadvance
  · exact .inl ⟨⟨hfirst, hsecond, hthird⟩, hsame⟩
  · exact .inr hadvance

/-- With as many passes as there are starts of block directives, none is left to be found. -/
private theorem settled_repeatPass {limit : Nat} {text : Text} (h : openers text ≤ limit)
    (registry : Registry) :
    Settled (repeatPass (blockPass process) limit text registry).1 := by
  induction limit generalizing text registry with
  | zero =>
    rcases progress_blockPass hprocess text registry with ⟨hsettled, -⟩ | ⟨-, hless⟩
    · exact hsettled
    · dsimp only at hless
      omega
  | succ limit ih =>
    rw [repeatPass]
    split
    next next grown hpass =>
    rcases progress_blockPass hprocess text registry with ⟨hsettled, hsame⟩ | ⟨hsize, hless⟩
    · obtain ⟨rfl, rfl⟩ := Prod.mk.inj (hpass.symm.trans hsame)
      rw [if_pos rfl]
      exact hsettled
    · rw [hpass] at hsize hless
      dsimp only at hsize hless
      rw [if_neg (by omega)]
      exact ih (by omega) grown

/-- One more pass than there are starts of block directives makes no difference. -/
private theorem repeatPass_succ {limit : Nat} {text : Text} (h : openers text ≤ limit)
    (registry : Registry) :
    repeatPass (blockPass process) (limit + 1) text registry =
      repeatPass (blockPass process) limit text registry := by
  induction limit generalizing text registry with
  | zero =>
    rcases progress_blockPass hprocess text registry with ⟨-, hsame⟩ | ⟨-, hless⟩
    · simp only [repeatPass, hsame, if_true]
    · dsimp only at hless
      omega
  | succ limit ih =>
    rw [repeatPass, repeatPass]
    split
    next next grown hpass =>
    rcases progress_blockPass hprocess text registry with ⟨-, hsame⟩ | ⟨hsize, hless⟩
    · obtain ⟨rfl, rfl⟩ := Prod.mk.inj (hpass.symm.trans hsame)
      rw [if_pos rfl, if_pos rfl]
    · rw [hpass] at hless
      dsimp only at hless
      split
      · rfl
      · exact ih (by omega) grown

/-- Limits that are large enough give the same result. -/
theorem repeatPass_eq_of_le {limit other : Nat} {text : Text} (h : openers text ≤ limit)
    (hother : openers text ≤ other) (registry : Registry) :
    repeatPass (blockPass process) limit text registry =
      repeatPass (blockPass process) other text registry := by
  have henough (more : Nat) : repeatPass (blockPass process) (openers text + more) text registry =
      repeatPass (blockPass process) (openers text) text registry := by
    induction more with
    | zero => rfl
    | succ more ih => rw [← Nat.add_assoc, repeatPass_succ hprocess (Nat.le_add_right _ _), ih]
  rw [← Nat.add_sub_of_le h, ← Nat.add_sub_of_le hother, henough, henough]

end

/-! ## Passes that agree -/

/-- Replacing does the same for builders that agree on the items. -/
theorem replaceFrom_congr {α : Type} {build other : α → Registry → DirectiveKind × Registry}
    {segments : List (Segment α)}
    (h : ∀ source value, .item source value ∈ segments → build value = other value) (offset : Nat)
    (registry : Registry) :
    Registry.replaceFrom build offset segments registry =
      Registry.replaceFrom other offset segments registry := by
  induction segments generalizing offset registry with
  | nil => rfl
  | cons segment rest ih =>
    have hrest := ih fun source value hm => h source value (List.mem_cons_of_mem _ hm)
    cases segment with
    | char c => rw [Registry.replaceFrom, Registry.replaceFrom, hrest]
    | item source value =>
      simp only [Registry.replaceFrom, h source value List.mem_cons_self, hrest]

/-- Branches are the same for passes that agree on the bodies. -/
private theorem branchesOf_congr {process other : Pass} {arms : List Arm}
    (h : ∀ arm ∈ arms, process arm.body.trim = other arm.body.trim) (registry : Registry) :
    branchesOf process arms registry = branchesOf other arms registry := by
  induction arms generalizing registry with
  | nil => rfl
  | cons arm arms ih =>
    have hrest := ih fun next hm => h next (List.mem_cons_of_mem _ hm)
    simp only [branchesOf, branchOf, h arm List.mem_cons_self, hrest]

/-- Taking out conditionals does the same for passes that agree on the bodies. -/
private theorem replaceConditionals_congr {process other : Pass} {text : Text}
    (h : ∀ body, IsBody text body → process body = other body) (registry : Registry) :
    replaceConditionals process text registry = replaceConditionals other text registry := by
  refine replaceFrom_congr (fun source conditional hm => ?_) 0 registry
  have hbody (body : Text) (hb : body ∈ conditional.bodies) : process body.trim = other body.trim :=
    h _ (.conditional source conditional hm (List.mem_map_of_mem hb))
  have hfirst := hbody conditional.body List.mem_cons_self
  have hrest := fun registry => branchesOf_congr (fun arm (harm : arm ∈ conditional.arms) =>
    hbody arm.body (List.mem_cons_of_mem _ (List.mem_map_of_mem harm))) registry
  funext registry
  simp only [conditionalKind, branchOf, hfirst, hrest]

/-- Taking out loops does the same for passes that agree on the bodies. -/
private theorem replaceLoops_congr {process other : Pass} {text : Text}
    (h : ∀ body, IsBody text body → process body = other body) (registry : Registry) :
    replaceLoops process text registry = replaceLoops other text registry := by
  refine replaceFrom_congr (fun source loop hm => ?_) 0 registry
  funext registry
  simp only [loopKind, h _ (.loop source loop hm rfl)]

/-- A class of texts that sound passes do not leave. -/
def Stable (inside : Text → Prop) : Prop :=
  ∀ text next registry final, Rewrites [text] registry [next] final → inside text → inside next

/-- Texts up to a given measure are such a class. -/
theorem IsMeasure.stable {size : Text → Nat} (hsize : IsMeasure size) (bound : Nat) :
    Stable fun text => size text ≤ bound :=
  fun _ _ _ _ h hle => (hsize.le_of_rewrites h).trans hle

section

variable {process other : Pass} {inside : Text → Prop} (hstable : Stable inside)
  (hprocess : Sound process)
  (hagree : ∀ text body, inside text → IsBody text body → process body = other body)

include hstable hprocess hagree

/-- One pass over block directives does the same for passes that agree on the bodies. -/
private theorem blockPass_congr {text : Text} (h : inside text) (registry : Registry) :
    blockPass process text registry = blockPass other text registry := by
  have hnext := hstable _ _ _ _ (sound_replaceConditionals hprocess text registry) h
  have hfirst := replaceConditionals_congr (fun body hbody => hagree text body h hbody) registry
  have hsecond := replaceLoops_congr (fun body hbody => hagree _ body hnext hbody)
    (replaceConditionals process text registry).2
  simp only [blockPass, hsecond]
  rw [hfirst]

/-- Repeated passes do the same for passes that agree on the bodies. -/
theorem repeatPass_congr (limit : Nat) {text : Text} (h : inside text) (registry : Registry) :
    repeatPass (blockPass process) limit text registry =
      repeatPass (blockPass other) limit text registry := by
  induction limit generalizing text registry with
  | zero => rfl
  | succ limit ih =>
    have hnext := hstable _ _ _ _ (sound_blockPass hprocess text registry) h
    rw [repeatPass, repeatPass, ← blockPass_congr hstable hprocess hagree h registry]
    split
    next next grown hpass =>
    rw [hpass] at hnext
    rw [ih hnext grown]

end

/-! ## Fragments -/

/-- Limits that are large enough give the same result for fragments of every depth. -/
private theorem processAt_eq_of_le {limit other : Nat} (depth : Nat) {text : Text}
    (h : openers text ≤ limit) (hother : openers text ≤ other) :
    processAt limit depth text = processAt other depth text := by
  induction depth generalizing text with
  | zero => rfl
  | succ depth ih =>
    funext registry
    have hsound := sound_processAt limit depth
    have hlimit := repeatPass_eq_of_le hsound h hother registry
    have hbodies : repeatPass (blockPass (processAt limit depth)) other text registry =
        repeatPass (blockPass (processAt other depth)) other text registry := by
      refine repeatPass_congr (isMeasure_openers.stable (openers text)) hsound ?_ other
        (Nat.le_refl _) registry
      intro outer body houter hbody
      have hle := (hbody.size_le isMeasure_openers).trans houter
      exact ih (hle.trans h) (hle.trans hother)
    rw [processAt, processAt, hlimit, hbodies]

private theorem processAt_of_braces_eq_zero (limit depth : Nat) {text : Text}
    (h : braces text = 0) :
    processAt limit depth text = fun registry => (text, registry) := by
  have hfree : '{' ∉ text := List.count_eq_zero.mp h
  cases depth with
  | zero => rfl
  | succ depth =>
    funext registry
    have hsound := sound_processAt limit depth
    have hnone : openers text = 0 :=
      Text.occurrences_eq_zero fun hpart => hfree (hpart.subset List.mem_cons_self)
    have hblocks : repeatPass (blockPass (processAt limit depth)) limit text registry =
        (text, registry) :=
      repeatPass_eq_of_le hsound (by omega) (Nat.le_of_eq hnone) registry
    have hplain : IsPlain (Segment.segments interpolation text) := by
      intro source value hm
      have hpiece := Segment.isInfix_of_mem hm
      rw [Segment.sources_segments] at hpiece
      exact hfree (hpiece.subset ((isPrefix_of_mem_interpolation hm).subset List.mem_cons_self))
    rw [processAt, hblocks]
    change Registry.replaceFrom _ 0 _ registry = _
    rw [replaceFrom_of_isPlain hplain, Segment.sources_segments]

private theorem processAt_succ (limit : Nat) {depth : Nat} {text : Text} (h : braces text ≤ depth) :
    processAt limit (depth + 1) text = processAt limit depth text := by
  induction depth generalizing text with
  | zero =>
    have hzero := Nat.le_zero.mp h
    rw [processAt_of_braces_eq_zero limit _ hzero, processAt_of_braces_eq_zero limit _ hzero]
  | succ depth ih =>
    funext registry
    have hbodies : repeatPass (blockPass (processAt limit (depth + 1))) limit text registry =
        repeatPass (blockPass (processAt limit depth)) limit text registry := by
      refine repeatPass_congr (isMeasure_braces.stable (depth + 1))
        (sound_processAt limit (depth + 1)) ?_
        limit h registry
      intro outer body houter hbody
      have hlt := hbody.braces_lt
      exact ih (by omega)
    rw [processAt, hbodies, processAt]

/-- A fragment is processed alike at every depth that is large enough. -/
private theorem processAt_eq_processFragment (limit : Nat) {depth : Nat} {text : Text}
    (h : braces text ≤ depth) :
    processAt limit depth text = processFragment limit text := by
  have henough (more : Nat) :
      processAt limit (braces text + more) text = processAt limit (braces text) text := by
    induction more with
    | zero => rfl
    | succ more ih => rw [← Nat.add_assoc, processAt_succ limit (Nat.le_add_right _ _), ih]
  rw [← Nat.add_sub_of_le h, henough]
  rfl

/-- The first phase of processing a fragment: block directives are taken out. -/
def takeBlocks (limit : Nat) : Pass := repeatPass (blockPass (processFragment limit)) limit

/-- Processing a fragment takes out block directives and then interpolations, and bodies of
directives are processed as fragments. -/
theorem processFragment_eq (limit : Nat) (text : Text) (registry : Registry) :
    processFragment limit text registry =
      replaceInterpolations (takeBlocks limit text registry).1
        (takeBlocks limit text registry).2 := by
  have hbodies : repeatPass (blockPass (processAt limit (braces text))) limit text registry =
      takeBlocks limit text registry := by
    refine repeatPass_congr (isMeasure_braces.stable (braces text))
      (sound_processAt limit (braces text)) ?_
      limit (Nat.le_refl _) registry
    intro outer body houter hbody
    have hlt := hbody.braces_lt
    exact processAt_eq_processFragment limit (by omega)
  rw [← processAt_eq_processFragment limit (Nat.le_succ (braces text)), processAt, hbodies]

/-- Processing fragments is sound. -/
theorem sound_processFragment (limit : Nat) : Sound (processFragment limit) :=
  fun text registry => sound_processAt limit (text.count '{') text registry

/-- What is left of a settled text by passes over block directives is the text itself. -/
theorem Settled.replace_eq {text : Text} (h : Settled text) (process : Pass) (registry : Registry) :
    replaceConditionals process text registry = (text, registry) ∧
      replaceLoops process text registry = (text, registry) ∧
      replaceRawMarkup text registry = (text, registry) := by
  refine ⟨?_, ?_, ?_⟩
  · exact (replaceFrom_of_isPlain h.conditionals 0 registry).trans (by rw [sources_conditionals])
  · exact (replaceFrom_of_isPlain h.loops 0 registry).trans (by rw [sources_loops])
  · exact (replaceFrom_of_isPlain h.rawMarkup 0 registry).trans (by rw [Segment.sources_segments])

/-- Once the pass limit reaches the number of places at which block directives can start, it stops
mattering: every such limit gives the same processed template. Under it, block directives are taken
out of the template and of every body of a directive until no pass over them finds anything, and
only then interpolations are taken out. -/
theorem process_of_openers_le {settings : Settings} {text : Text}
    (h : Text.occurrences blockMark text ≤ settings.passLimit) :
    (∀ limit, Text.occurrences blockMark text ≤ limit →
      process { settings with passLimit := limit } text = process settings text) ∧
    (∀ fragment registry, processFragment settings.passLimit fragment registry =
      replaceInterpolations (takeBlocks settings.passLimit fragment registry).1
        (takeBlocks settings.passLimit fragment registry).2) ∧
    ∀ fragment ∈ text :: (process settings text).directives.toList.flatMap (·.kind.bodies),
      ∀ registry process other,
        let handed := (takeBlocks settings.passLimit fragment registry).1
        replaceConditionals process handed other = (handed, other) ∧
          replaceLoops process handed other = (handed, other) ∧
          replaceRawMarkup handed other = (handed, other) := by
  refine ⟨fun limit hlimit => ?_, processFragment_eq settings.passLimit, ?_⟩
  · have hsame := processAt_eq_of_le (braces text) hlimit h
    simp only [process, processFragment]
    rw [show text.count '{' = braces text from rfl, hsame]
  · intro fragment hfragment registry process other
    have hle : openers fragment ≤ settings.passLimit := by
      rcases List.mem_cons.mp hfragment with rfl | hfragment
      · exact h
      · obtain ⟨directive, hdirective, hbody⟩ := List.mem_flatMap.mp hfragment
        have hbound : ∀ source ∈ [text], openers source ≤ settings.passLimit := by
          intro source hsource
          rwa [List.mem_singleton.mp hsource]
        rcases isMeasure_openers.bodies_le (rewrites_process settings text) hbound hdirective with
          hm | hm
        · cases hm
        · exact hm fragment hbody
    exact (settled_repeatPass (sound_processFragment _) hle registry).replace_eq process other

/-- Raw markup in a conditional needs no more than two passes, and the passes of the default
settings give the same. -/
theorem process_of_openers_le_two :
    process { passLimit := 2 }
      "\x7b\x7b@if a\x7d\x7d\x7b\x7b@html b\x7d\x7d\x7b\x7b/if\x7d\x7d".toList =
      process {} "\x7b\x7b@if a\x7d\x7d\x7b\x7b@html b\x7d\x7d\x7b\x7b/if\x7d\x7d".toList := by
  have h : Text.occurrences blockMark
      "\x7b\x7b@if a\x7d\x7d\x7b\x7b@html b\x7d\x7d\x7b\x7b/if\x7d\x7d".toList ≤
        ({} : Settings).passLimit := by decide
  exact (process_of_openers_le h).1 2 (by decide)

end Template

end ComponentFile
