import ComponentFile.Proofs.Template.Component
import ComponentFile.Proofs.Template.Conditional
import ComponentFile.Proofs.Template.Loop
import ComponentFile.Template.Processing

/-!
# Processing is a run of replacements

Every pass of the processing is sound, and so are repeated passes, fragments at every depth and the
whole template. What holds along runs of `Rewrites` therefore holds of every processed template, for
every pass limit and every name of the runtime attribute.
-/

namespace ComponentFile

namespace Registry

/-- What holds of the directives so far and of the directive of each item holds of all directives
after the items are replaced. -/
private theorem forall_mem_replaceFrom {α : Type} {holds : Directive → Prop}
    {build : α → Registry → DirectiveKind × Registry} {segments : List (Segment α)}
    (hgrows : ∀ value registry, (∀ directive ∈ registry.toList, holds directive) →
      ∀ directive ∈ (build value registry).2.toList, holds directive)
    (hitem : ∀ source value, .item source value ∈ segments → ∀ registry index start,
      holds { index, kind := (build value registry).1, start,
              stop := start + source.byteSize, source })
    (offset : Nat) {registry : Registry} (h : ∀ directive ∈ registry.toList, holds directive) :
    ∀ directive ∈ (replaceFrom build offset segments registry).2.toList, holds directive := by
  induction segments generalizing offset registry with
  | nil => exact h
  | cons segment rest ih =>
    have hrest := fun source value hm => hitem source value (List.mem_cons_of_mem _ hm)
    cases segment with
    | char c => exact ih hrest (offset + c.utf8Size) h
    | item source value =>
      apply ih hrest (offset + source.byteSize)
      intro directive hm
      simp only [Array.toList_push, List.mem_append, List.mem_singleton] at hm
      rcases hm with hm | rfl
      · exact hgrows value registry h directive hm
      · exact hitem source value List.mem_cons_self registry _ offset

end Registry

namespace Template

/-! ## Relations that all passes keep -/

/-- The relation holds between the text and the directives before the pass and those after it. -/
def Along (related : Text × Registry → Text × Registry → Prop) (pass : Pass) : Prop :=
  ∀ text registry, related (text, registry) (pass text registry)

/-- A relation that every single pass keeps, those over block directives when it is kept for their
bodies. -/
structure Traced (related : Text × Registry → Text × Registry → Prop) : Prop where
  refl : ∀ state, related state state
  trans : ∀ {first second third}, related first second → related second third → related first third
  conditionals : ∀ {process : Pass}, Along related process →
    Along related (replaceConditionals process)
  loops : ∀ {process : Pass}, Along related process → Along related (replaceLoops process)
  rawMarkup : Along related replaceRawMarkup
  interpolations : Along related replaceInterpolations

namespace Traced

variable {related : Text × Registry → Text × Registry → Prop} (h : Traced related)

include h

/-- One pass over conditionals, loops and raw markup keeps the relation. -/
theorem blockPass {process : Pass} (hprocess : Along related process) :
    Along related (blockPass process) := by
  intro text registry
  have hconditionals := h.conditionals hprocess text registry
  have hloops := h.loops hprocess (replaceConditionals process text registry).1
    (replaceConditionals process text registry).2
  exact h.trans (h.trans hconditionals hloops) (h.rawMarkup _ _)

/-- Repeating a pass keeps what it keeps, however often. -/
theorem repeatPass {pass : Pass} (hpass : Along related pass) (limit : Nat) :
    Along related (repeatPass pass limit) := by
  intro text registry
  induction limit generalizing text registry with
  | zero => exact h.refl _
  | succ limit ih =>
    have hfirst := hpass text registry
    rw [Template.repeatPass]
    split
    next next grown hp =>
    rw [hp] at hfirst
    split
    · exact hfirst
    · exact h.trans hfirst (ih next grown)

/-- Processing a fragment keeps the relation at every depth. -/
theorem processAt (limit depth : Nat) : Along related (processAt limit depth) := by
  induction depth with
  | zero => exact fun text registry => h.refl _
  | succ depth ih =>
    intro text registry
    exact h.trans (h.repeatPass (h.blockPass ih) limit text registry) (h.interpolations _ _)

end Traced

/-! ## Properties of all directives -/

/-- If all directives so far have the property, so have those after the step. -/
def KeepsAll (holds : Directive → Prop) (start result : Text × Registry) : Prop :=
  (∀ directive ∈ start.2.toList, holds directive) → ∀ directive ∈ result.2.toList, holds directive

section

variable {holds : Directive → Prop}

/-- A pass keeps a property of all directives when its items have it and building their directives
keeps it. -/
theorem along_keepsAll {α : Type} {build : α → Registry → DirectiveKind × Registry}
    {read : Text → List (Segment α)}
    (hgrows : ∀ value text registry,
      KeepsAll holds (text, registry) (text, (build value registry).2))
    (hitem : ∀ text source value, .item source value ∈ read text → ∀ registry index start,
      holds { index, kind := (build value registry).1, start,
              stop := start + source.byteSize, source }) :
    Along (KeepsAll holds) fun text registry => registry.replace build (read text) :=
      fun text _ h =>
  Registry.forall_mem_replaceFrom (fun value => hgrows value text) (hitem text) 0 h

/-- Building the branches of a list of arms keeps what processing their bodies keeps. -/
private theorem keepsAll_branchesOf {process : Pass} (hprocess : Along (KeepsAll holds) process)
    (arms : List Arm) (text : Text) (registry : Registry) :
    KeepsAll holds (text, registry) (text, (branchesOf process arms registry).2) := by
  induction arms generalizing registry with
  | nil => exact id
  | cons arm arms ih => exact fun h => ih _ (hprocess arm.body.trim registry h)

/-- A property of the directives of every item is kept by all passes over a fragment. -/
theorem traced_keepsAll
    (hconditional : ∀ {text source : Text} {conditional : Conditional},
      .item source conditional ∈ conditionals text → ∀ process registry index start,
      holds { index, kind := (conditionalKind process conditional registry).1, start,
              stop := start + source.byteSize, source })
    (hloop : ∀ {text source : Text} {loop : Loop},
      .item source loop ∈ loops text → ∀ process registry index start,
      holds { index, kind := (loopKind process loop registry).1, start,
              stop := start + source.byteSize, source })
    (hraw : ∀ {source : Text} content index start,
      holds { index, kind := .rawMarkup content, start, stop := start + source.byteSize, source })
    (hinterpolation : ∀ {source : Text} expression index start,
      holds { index, kind := .interpolation expression, start,
              stop := start + source.byteSize, source }) :
    Traced (KeepsAll holds) where
  refl _ := id
  trans hfirst hsecond := hsecond ∘ hfirst
  conditionals := by
    intro process hprocess
    refine along_keepsAll (fun conditional text registry h => ?_) fun text source conditional hm =>
      hconditional hm process
    exact keepsAll_branchesOf hprocess conditional.arms text _
      (hprocess conditional.body.trim registry h)
  loops := by
    intro process hprocess
    refine along_keepsAll (fun loop text registry h => ?_) fun text source loop hm =>
      hloop hm process
    exact hprocess loop.body.trim registry h
  rawMarkup := along_keepsAll (fun _ _ _ => id) fun _ _ content _ _ => hraw content
  interpolations := along_keepsAll (fun _ _ _ => id) fun _ _ expression _ _ =>
    hinterpolation expression

end

/-! ## Runs of replacements -/

/-- Every pass is a run of replacements. -/
theorem traced_rewrites :
    Traced fun start result => Rewrites [start.1] start.2 [result.1] result.2 where
  refl _ := .refl _ _
  trans := Rewrites.trans
  conditionals hprocess := sound_replaceConditionals hprocess
  loops hprocess := sound_replaceLoops hprocess
  rawMarkup := sound_replaceRawMarkup
  interpolations := sound_replaceInterpolations

/-- One pass over conditionals, loops and raw markup is sound. -/
theorem sound_blockPass {process : Pass} (hprocess : Sound process) : Sound (blockPass process) :=
  traced_rewrites.blockPass hprocess

/-- Repeating a sound pass is sound, however often. -/
theorem sound_repeatPass {pass : Pass} (hpass : Sound pass) (limit : Nat) :
    Sound (repeatPass pass limit) :=
  traced_rewrites.repeatPass hpass limit

/-- Processing a fragment is sound at every depth. -/
theorem sound_processAt (limit depth : Nat) : Sound (processAt limit depth) :=
  traced_rewrites.processAt limit depth

/-- A processed template comes from its text by a run of replacements. -/
theorem rewrites_process (settings : Settings) (text : Text) :
    Rewrites [text] #[] [(process settings text).content] (process settings text).directives :=
  (sound_processAt settings.passLimit (text.count '{') text #[]).trans
    (sound_replaceComponents settings.runtimeAttribute _ _)

/-- There are no more directives than characters. -/
theorem size_directives_le (settings : Settings) (text : Text) :
    (process settings text).directives.size ≤ text.length := by
  have hsize := (rewrites_process settings text).size_add_starts_le
  have hstarts := starts_le_length text
  simp only [List.map_cons, List.map_nil, List.sum_cons, List.sum_nil, Array.size_empty] at hsize
  omega

/-- The directives of a template without placeholders stand in order, and its processed text
mentions no others. -/
theorem ordered_process (settings : Settings) {text : Text} (h : Placeholder.Absent text) :
    Ordered (process settings text).directives ∧
      Bounded (process settings text).directives.size [(process settings text).content] := by
  refine (rewrites_process settings text).ordered ⟨rfl, fun _ hm => by cases hm⟩ ?_
  intro other hm placeholder hp
  rw [List.mem_singleton.mp hm, Placeholder.references_eq_nil_of_absent h] at hp
  cases hp

end Template

end ComponentFile
