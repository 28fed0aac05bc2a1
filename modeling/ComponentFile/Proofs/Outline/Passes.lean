import ComponentFile.Proofs.Outline.Conditional
import ComponentFile.Proofs.Outline.Header
import ComponentFile.Proofs.Outline.Insertion
import ComponentFile.Proofs.Outline.Loop
import ComponentFile.Proofs.Template.Processing

/-!
# Processing the text of an outline

Each pass takes its kind of nodes out of the outline. The first pass leaves no conditionals and no
raw markup, every pass shortens the longest chain of loops by one, and a pass that adds no directive
has found no loops. So repeated passes leave only markup, marks and interpolations, and the
interpolations come last. Bodies are processed in the same way with less depth.
-/

namespace ComponentFile.Template

variable {template : ProcessedTemplate} {limit depth : Nat}

/-- A pass that turns the text of every fitting outline into a text that shows its normal form. -/
structure Processes (template : ProcessedTemplate) (limit depth : Nat) (process : Pass) : Prop where
  sound : Sound process
  read_eq : ∀ outline : Outline Piece, outline.Fits template limit depth → ∀ registry,
    (process (outline.text Piece.text) registry).2.toList <+: template.directives.toList →
      template.read (process (outline.text Piece.text) registry).1 =
        outline.normal (Piece.place template)

/-- A sound pass only adds directives. -/
theorem Sound.grows {pass : Pass} (h : Sound pass) (text : Text) (registry : Registry) :
    registry.toList <+: (pass text registry).2.toList :=
  (h text registry).isPrefix

/-! ## The directives of nodes -/

private theorem builds_rawMarkup :
    Builds template limit depth pickRawMarkup fun content registry =>
      (.rawMarkup content, registry) where
  isNode := by
    intro outline found h
    match outline, h with
    | .leaf (.written (.rawMarkup _)) _, _ => trivial
  grows := fun _ _ => List.prefix_refl _
  place_eq := by
    intro outline found _ h registry _
    match outline, h with
    | .leaf (.written (.rawMarkup _)) _, h =>
      cases h
      rfl

private theorem builds_interpolation :
    Builds template limit depth pickInterpolation fun expression registry =>
      (.interpolation expression, registry) where
  isNode := by
    intro outline found h
    match outline, h with
    | .leaf (.written (.interpolation _)) _, _ => trivial
  grows := fun _ _ => List.prefix_refl _
  place_eq := by
    intro outline found _ h registry _
    match outline, h with
    | .leaf (.written (.interpolation _)) _, h =>
      cases h
      rfl

section

variable {process : Pass}

/-- A processed body shows the trimmed normal form of the body. -/
theorem Processes.read_trim (h : Processes template limit depth process) {body : Outline Piece}
    (hbody : body.Fits template limit depth) {registry : Registry}
    (hfinal : (process (body.text Piece.text).trim registry).2.toList <+:
      template.directives.toList) :
    template.read (process (body.text Piece.text).trim registry).1 =
      (body.normal (Piece.place template)).trim Insert.isBlank := by
  rw [← Outline.text_trim] at hfinal ⊢
  rw [h.read_eq _ hbody.trim registry hfinal, Outline.normal_trim hbody.wellFormed]

/-- A loop without loops in it is shown as a loop. -/
theorem Processes.builds_loop (h : Processes template limit depth process) :
    Builds template limit depth pickLoop (loopKind process) where
  isNode := by
    intro outline found hpick
    cases outline with
    | loop header body next => trivial
    | nil => cases hpick
    | leaf piece next => cases hpick
    | conditional condition body arms next => cases hpick
  grows := fun loop registry => h.sound.grows loop.body.trim registry
  place_eq := by
    intro outline found hfits hpick registry hfinal
    cases outline with
    | nil => cases hpick
    | leaf piece next => cases hpick
    | conditional condition body arms next => cases hpick
    | loop header body next =>
      rw [pickLoop] at hpick
      split at hpick
      · cases hpick
      · cases hpick
        have hread := h.read_trim hfits.loopBody hfinal
        funext rest
        simp only [loopKind, LoopHeader.parse_inner hfits.wellFormed.1, DirectiveKind.place, hread,
          Outline.headPlace]

/-- Branches only add directives. -/
theorem Processes.grows_branchesOf (h : Processes template limit depth process) (arms : List Arm)
    (registry : Registry) : registry.toList <+: (branchesOf process arms registry).2.toList := by
  induction arms generalizing registry with
  | nil => exact List.prefix_refl _
  | cons arm arms ih => exact (h.sound.grows arm.body.trim registry).trans (ih _)

/-- The branches of arms show the normal form of the arms. -/
theorem Processes.armsOf_branchesOf (h : Processes template limit depth process) :
    ∀ {arms : Arms Piece}, arms.Fits template limit depth → ∀ registry,
      (branchesOf process arms.read registry).2.toList <+: template.directives.toList →
        armsOf template.read (branchesOf process arms.read registry).1 =
          arms.normal (Piece.place template)
  | .nil, _, _, _ => rfl
  | .cons condition body rest, hfits, registry, hfinal => by
    have hread := h.read_trim hfits.body ((h.grows_branchesOf rest.read _).trans hfinal)
    have hrest := h.armsOf_branchesOf hfits.rest _ hfinal
    cases condition with
    | none =>
      rw [Arms.normal, ← hrest, ← hread]
      rfl
    | some condition =>
      rw [Arms.normal, ← hrest, ← hread]
      rfl

/-- A conditional is shown as a conditional. -/
theorem Processes.builds_conditional (h : Processes template limit depth process) :
    Builds template limit depth pickConditional (conditionalKind process) where
  isNode := by
    intro outline found hpick
    cases outline with
    | conditional condition body arms next => trivial
    | nil => cases hpick
    | leaf piece next => cases hpick
    | loop header body next => cases hpick
  grows := fun conditional registry =>
    (h.sound.grows conditional.body.trim registry).trans (h.grows_branchesOf conditional.arms _)
  place_eq := by
    intro outline found hfits hpick registry hfinal
    cases outline with
    | nil => cases hpick
    | leaf piece next => cases hpick
    | loop header body next => cases hpick
    | conditional condition body arms next =>
      cases hpick
      have hread := h.read_trim hfits.conditionalBody
        ((h.grows_branchesOf arms.read _).trans hfinal)
      have harms := h.armsOf_branchesOf hfits.arms _ hfinal
      funext rest
      rw [Outline.headPlace, ← hread, ← harms]
      rfl

end

/-! ## What the passes leave -/

section

variable {outline other : Outline Piece} {keep : Piece → Prop}

/-- No conditional is left when conditionals are taken out. -/
theorem Masked.bare_of_conditional (h : Masked template pickConditional outline other) :
    other.Bare fun _ => True := by
  induction h with
  | nil => exact .nil
  | leaf piece _ _ ihnext => exact .leaf trivial ihnext
  | loop header _ _ _ ihbody ihnext => exact .loop ihbody ihnext
  | conditional condition body arms hpick _ _ => cases hpick
  | take directive _ _ _ _ _ ihnext => exact .leaf trivial ihnext

/-- No raw markup is left when raw markup is taken out. -/
theorem Masked.bare_of_rawMarkup (h : Masked template pickRawMarkup outline other)
    (hbare : outline.Bare keep) : other.Bare Piece.NotRaw := by
  induction h with
  | nil => exact .nil
  | leaf piece hpick _ ihnext =>
    cases hbare with
    | leaf _ hnext =>
      refine .leaf ?_ (ihnext hnext)
      match piece, hpick with
      | .written (.char _), _ => trivial
      | .written (.interpolation _), _ => trivial
      | .mark _, _ => trivial
  | loop header _ _ _ ihbody ihnext =>
    cases hbare with
    | loop hbody hnext => exact .loop (ihbody hbody) (ihnext hnext)
  | conditional condition body arms _ _ _ => cases hbare
  | take directive _ _ _ _ _ ihnext => exact .leaf trivial (ihnext hbare.next)

/-- Only characters and marks are left when interpolations are taken out of leaves. -/
theorem Masked.flat_of_interpolation (h : Masked template pickInterpolation outline other)
    (hflat : outline.Flat Piece.NotRaw) : other.Flat Piece.IsPlain := by
  induction h with
  | nil => exact .nil
  | leaf piece hpick _ ihnext =>
    cases hflat with
    | leaf hraw hnext =>
      refine .leaf ?_ (ihnext hnext)
      match piece, hraw, hpick with
      | .written (.char _), _, _ => trivial
      | .mark _, _, _ => trivial
  | loop header _ _ _ _ _ => cases hflat
  | conditional condition body arms _ _ _ => cases hflat
  | take directive _ _ _ _ _ ihnext => exact .leaf trivial (ihnext hflat.next)

/-- The longest chain of loops gets shorter when the innermost loops are taken out. -/
theorem Masked.loopChain_le_pred (h : Masked template pickLoop outline other)
    (hbare : outline.Bare keep) (enclosing : Nat) :
    other.loopChain enclosing ≤ max enclosing (outline.loopChain enclosing - 1) := by
  induction h generalizing enclosing with
  | nil => exact Nat.le_max_left _ _
  | leaf piece _ _ ihnext =>
    cases hbare with
    | leaf _ hnext => exact ihnext hnext enclosing
  | @loop header body inside next rest hpick _ _ ihbody ihnext =>
    cases hbare with
    | loop hbody hnext =>
      -- the body has a loop, so that the chain through it reaches beyond this loop
      have hloop : body.hasLoop = true := by
        cases hloop : body.hasLoop with
        | true => rfl
        | false => simp [pickLoop, hloop] at hpick
      have hinside := ihbody hbody (enclosing + 1)
      have hafter := ihnext hnext enclosing
      have hlt := Outline.lt_loopChain_of_hasLoop (enclosing + 1) body hloop
      rw [Outline.loopChain, Outline.loopChain]
      omega
  | conditional condition body arms _ _ _ => cases hbare
  | @take outline rest found directive _ _ _ _ _ ihnext =>
    have hle := Outline.loopChain_next_le enclosing outline
    have hnext := ihnext hbare.next enclosing
    rw [Outline.loopChain]
    omega

/-- A loop in an outline makes one an item. -/
theorem Outline.Bare.exists_item (hbare : outline.Bare keep) (hloop : outline.hasLoop = true) :
    ∃ source found, .item source found ∈ outline.segments pickLoop := by
  induction hbare with
  | nil => cases hloop
  | leaf _ _ ihnext =>
    obtain ⟨source, found, hm⟩ := ihnext hloop
    exact ⟨source, found, List.mem_append_right _ hm⟩
  | @loop header body next _ _ ihbody _ =>
    cases hinner : body.hasLoop with
    | false =>
      have hpick : pickLoop (.loop header body next) =
          some { header := header.inner, body := body.text Piece.text } := by
        rw [pickLoop, hinner, if_neg Bool.false_ne_true]
      have hnode : (Outline.loop header body next).IsNode := trivial
      rw [Outline.segments_of_picked hnode hpick]
      exact ⟨_, _, List.mem_cons_self⟩
    | true =>
      obtain ⟨source, found, hm⟩ := ihbody hinner
      refine ⟨source, found, List.mem_append_left _ ?_⟩
      simp only [pickLoop, hinner, if_true]
      exact List.mem_append_left _ (List.mem_append_right _ hm)

end

/-! ## Whole passes -/

/-- A pass over the segments of a fitting outline turns the picked nodes into marks. -/
theorem Builds.exists_masked {β : Type} {pick : Picking β}
    {build : β → Registry → DirectiveKind × Registry} (h : Builds template limit depth pick build)
    {outline : Outline Piece} (hfits : outline.Fits template limit (depth + 1))
    {segments : List (Segment β)} (hsegments : segments = outline.segments pick)
    {registry : Registry}
    (hfinal : (registry.replace build segments).2.toList <+: template.directives.toList) :
    ∃ other, (registry.replace build segments).1 = other.text Piece.text ∧
      Masked template pick outline other := by
  subst hsegments
  exact h.marks hfits 0 registry hfinal

/-- One pass over conditionals, loops and raw markup leaves an outline with the same normal form,
without conditionals and raw markup and with shorter chains of loops. If it adds nothing, no loops
are left. -/
theorem Processes.blockPass {process : Pass} (h : Processes template limit depth process)
    {outline : Outline Piece} (hfits : outline.Fits template limit (depth + 1))
    {registry : Registry}
    (hfinal : (blockPass process (outline.text Piece.text) registry).2.toList <+:
      template.directives.toList) :
    ∃ other : Outline Piece,
      (Template.blockPass process (outline.text Piece.text) registry).1 = other.text Piece.text ∧
      other.Fits template limit (depth + 1) ∧
      other.normal (Piece.place template) = outline.normal (Piece.place template) ∧
      other.Bare Piece.NotRaw ∧ other.loopChain 0 ≤ outline.loopChain 0 - 1 ∧
      ((Template.blockPass process (outline.text Piece.text) registry).2.size = registry.size →
        other.Flat Piece.NotRaw) := by
  let first := replaceConditionals process (outline.text Piece.text) registry
  let second := replaceLoops process first.1 first.2
  have hsecond : second.2.toList <+: template.directives.toList :=
    (sound_replaceRawMarkup.grows second.1 second.2).trans hfinal
  have hfirst : first.2.toList <+: template.directives.toList :=
    ((sound_replaceLoops h.sound).grows first.1 first.2).trans hsecond
  obtain ⟨noConditionals, htext, hconditionals⟩ :=
    h.builds_conditional.exists_masked hfits (conditionals_text hfits.wellFormed) hfirst
  have hbare := hconditionals.bare_of_conditional
  have hfitsFirst := hconditionals.fits hfits
  have hloops : loops first.1 = noConditionals.segments pickLoop := by
    rw [show first.1 = noConditionals.text Piece.text from htext]
    exact loops_text hbare hfitsFirst.wellFormed
  obtain ⟨fewerLoops, htextSecond, hmasked⟩ :=
    h.builds_loop.exists_masked hfitsFirst hloops hsecond
  have hbareSecond := hmasked.bare (fun _ => trivial) hbare
  have hfitsSecond := hmasked.fits hfitsFirst
  have hrawMarkup : Segment.segments rawMarkup second.1 = fewerLoops.segments pickRawMarkup := by
    rw [show second.1 = fewerLoops.text Piece.text from htextSecond]
    exact segments_rawMarkup hbareSecond hfitsSecond.wellFormed
  obtain ⟨other, htextThird, hlast⟩ := builds_rawMarkup.exists_masked hfitsSecond hrawMarkup hfinal
  have hbareThird := hlast.bare_of_rawMarkup hbareSecond
  refine ⟨other, htextThird, hlast.fits hfitsSecond, ?_, hbareThird, ?_, fun hsize => ?_⟩
  · rw [hlast.normal_eq, hmasked.normal_eq, hconditionals.normal_eq]
  · have hle := hlast.loopChain_le 0
    have hpred := hmasked.loopChain_le_pred hbare 0
    have hkept := hconditionals.loopChain_le 0
    omega
  · -- a loop would have added a directive
    have hnone : noConditionals.hasLoop = false := by
      cases hloop : noConditionals.hasLoop with
      | false => rfl
      | true =>
        obtain ⟨source, found, hm⟩ := hbare.exists_item hloop
        rw [← hloops] at hm
        have hlt : first.2.toList.length < second.2.toList.length :=
          Registry.length_lt_replaceFrom h.builds_loop.grows 0 hm first.2
        have hbefore := ((sound_replaceConditionals h.sound).grows (outline.text Piece.text)
          registry).length_le
        have hafter := (sound_replaceRawMarkup.grows second.1 second.2).length_le
        have hsame : (replaceRawMarkup second.1 second.2).2.toList.length =
            registry.toList.length := by
          rw [Array.length_toList, Array.length_toList]
          exact hsize
        have hbefore : registry.toList.length ≤ first.2.toList.length := hbefore
        omega
    have hflat := hlast.flat (fun _ => trivial) (hmasked.flat (fun _ => trivial) (hbare.flat hnone))
    exact hbareThird.flat hflat.hasLoop_eq_false

/-- Repeated passes leave markup, marks and interpolations, if there are as many passes as loops
nest. -/
theorem Processes.repeatPass {process : Pass} (h : Processes template limit depth process)
    (count : Nat) {outline : Outline Piece} (hfits : outline.Fits template limit (depth + 1))
    (hchain : outline.loopChain 0 ≤ count) (hflat : count = 0 → outline.Flat Piece.NotRaw)
    {registry : Registry}
    (hfinal : (repeatPass (Template.blockPass process) count (outline.text Piece.text)
      registry).2.toList <+: template.directives.toList) :
    ∃ other : Outline Piece,
      (Template.repeatPass (Template.blockPass process) count
          (outline.text Piece.text) registry).1 =
        other.text Piece.text ∧
      other.Fits template limit (depth + 1) ∧
      other.normal (Piece.place template) = outline.normal (Piece.place template) ∧
      other.Flat Piece.NotRaw := by
  induction count generalizing outline registry with
  | zero => exact ⟨outline, rfl, hfits, rfl, hflat rfl⟩
  | succ count ih =>
    rw [Template.repeatPass] at hfinal ⊢
    have hgrows := (sound_repeatPass (sound_blockPass h.sound) count).grows
    split at hfinal
    next text grown hpass =>
    by_cases hsize : grown.size = registry.size
    · rw [if_pos hsize] at hfinal ⊢
      rw [← hpass] at hfinal ⊢
      obtain ⟨other, htext, hfitsOther, hnormal, _, _, hlast⟩ := h.blockPass hfits hfinal
      rw [hpass] at hlast
      exact ⟨other, htext, hfitsOther, hnormal, hlast hsize⟩
    · rw [if_neg hsize] at hfinal ⊢
      have hprefix : (Template.blockPass process (outline.text Piece.text) registry).2.toList <+:
          template.directives.toList := by
        rw [hpass]
        exact (hgrows text grown).trans hfinal
      obtain ⟨other, htext, hfitsOther, hnormal, hbare, hshorter, _⟩ := h.blockPass hfits hprefix
      rw [hpass] at htext
      have htext : text = other.text Piece.text := htext
      subst htext
      have hnone (hzero : count = 0) : other.hasLoop = false := by
        cases hloop : other.hasLoop with
        | false => rfl
        | true =>
          have hlt := Outline.lt_loopChain_of_hasLoop 0 other hloop
          omega
      obtain ⟨last, htextLast, hfitsLast, hnormalLast, hflatLast⟩ :=
        ih hfitsOther (by omega) (fun hzero => hbare.flat (hnone hzero)) hfinal
      exact ⟨last, htextLast, hfitsLast, hnormalLast.trans hnormal, hflatLast⟩

/-- Without braces there are only characters and marks. -/
theorem Outline.flat_of_braces_eq_zero :
    ∀ {outline : Outline Piece}, braces (outline.text Piece.text) = 0 → outline.Flat Piece.IsPlain
  | .nil, _ => .nil
  | .leaf piece next, h => by
    rw [Outline.text, braces_append, Nat.add_eq_zero_iff] at h
    have hpiece : piece.IsPlain := by
      match piece, h.1 with
      | .written (.char _), _ => trivial
      | .mark _, _ => trivial
      | .written (.interpolation _), hzero => exact absurd hzero (Nat.ne_of_gt (braces_pos rfl))
      | .written (.rawMarkup _), hzero => exact absurd hzero (Nat.ne_of_gt (braces_pos rfl))
    exact .leaf hpiece (flat_of_braces_eq_zero h.2)
  | .loop _ _ _, h => absurd h (Nat.ne_of_gt (braces_pos rfl))
  | .conditional _ _ _ _, h => absurd h (Nat.ne_of_gt (braces_pos rfl))

/-- Processing leaves characters and marks, with the same normal form. -/
theorem exists_plain_processAt (hordered : Ordered template.directives)
    (hsize : template.directives.size ≤ Placeholder.indexBound) (hlimit : 1 ≤ limit) (depth : Nat)
    {outline : Outline Piece} (hfits : outline.Fits template limit depth) {registry : Registry}
    (hfinal : (processAt limit depth (outline.text Piece.text) registry).2.toList <+:
      template.directives.toList) :
    ∃ other : Outline Piece,
      (processAt limit depth (outline.text Piece.text) registry).1 = other.text Piece.text ∧
      other.Fits template limit depth ∧
      other.normal (Piece.place template) = outline.normal (Piece.place template) ∧
      other.Flat Piece.IsPlain := by
  induction depth generalizing outline registry with
  | zero =>
    have hflat := Outline.flat_of_braces_eq_zero (Nat.le_zero.mp hfits.braces_le)
    exact ⟨outline, rfl, hfits, rfl, hflat⟩
  | succ depth ih =>
    have hprocess : Processes template limit depth (processAt limit depth) := by
      refine ⟨sound_processAt limit depth, fun body hbody registry hfinal => ?_⟩
      obtain ⟨other, htext, hother, hnormal, hflat⟩ := ih hbody hfinal
      rw [htext, hflat.read_text hordered hsize hother.wellFormed hother.clear, hnormal]
    let blocks := repeatPass (blockPass (processAt limit depth)) limit
      (outline.text Piece.text) registry
    have hblocks : blocks.2.toList <+: template.directives.toList :=
      (sound_replaceInterpolations.grows blocks.1 blocks.2).trans hfinal
    obtain ⟨leaves, htext, hleaves, hnormal, hflat⟩ :=
      hprocess.repeatPass limit hfits hfits.loopChain_le (fun hzero => by omega) hblocks
    have hsegments : Segment.segments interpolation blocks.1 =
        leaves.segments pickInterpolation := by
      rw [show blocks.1 = leaves.text Piece.text from htext]
      exact segments_interpolation hflat hleaves.wellFormed
    obtain ⟨other, htextOther, hmasked⟩ :=
      builds_interpolation.exists_masked hleaves hsegments hfinal
    refine ⟨other, htextOther, hmasked.fits hleaves, ?_, hmasked.flat_of_interpolation hflat⟩
    rw [hmasked.normal_eq, hnormal]

end ComponentFile.Template
