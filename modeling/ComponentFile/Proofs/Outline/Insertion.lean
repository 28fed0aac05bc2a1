import ComponentFile.Proofs.Outline.Marking

/-!
# The leaves of an outline

Raw markup is looked for once no conditionals are left, and interpolations once only leaves are left
that are not raw markup. After that the text consists of markup and placeholders. Such a text holds
no component, and it shows the normal form of its outline.
-/

namespace ComponentFile

namespace Segment

variable {β : Type} {recognise : Recogniser β}

/-- Text that is passed over is plain. -/
theorem scan_of_passes {text : Text} (h : Template.Passes recognise text) (rest : Text) :
    scan recognise 0 (text ++ rest) = plain text ++ scan recognise 0 rest := by
  induction text with
  | nil => rfl
  | cons c text ih =>
    obtain ⟨hfirst, hrest⟩ := Template.passes_cons_iff.mp h
    have hnone := hfirst rest
    rw [List.cons_append] at hnone ⊢
    rw [scan, hnone, ih hrest]
    rfl

/-- Text that is recognised is one item. -/
theorem scan_item {text : Text} (hne : text ≠ []) {rest : Text} {value : β}
    (h : recognise (text ++ rest) = some (value, text.length)) :
    scan recognise 0 (text ++ rest) = .item text value :: scan recognise 0 rest := by
  obtain ⟨c, tail, rfl⟩ := List.exists_cons_of_ne_nil hne
  rw [List.cons_append, List.length_cons] at h
  rw [List.cons_append, scan, h]
  simp only [List.take_succ_cons, List.take_left, scan_eq_scan_drop _ tail.length, List.drop_left]

end Segment

namespace Template

/-! ## Raw markup and interpolations -/

/-- The piece is not raw markup. -/
def Piece.NotRaw : Piece → Prop
  | .written (.rawMarkup _) => False
  | .written (.char _) | .written (.interpolation _) | .mark _ => True

/-- The piece is a character or a mark. -/
def Piece.IsPlain : Piece → Prop
  | .written (.rawMarkup _) | .written (.interpolation _) => False
  | .written (.char _) | .mark _ => True

/-- Raw markup is picked. -/
def pickRawMarkup : Picking Text
  | .leaf (.written (.rawMarkup content)) _ => some content.trim
  | .leaf (.written (.char _)) _ | .leaf (.written (.interpolation _)) _ | .leaf (.mark _) _ => none
  | .nil | .loop _ _ _ | .conditional _ _ _ _ => none

/-- Interpolations are picked. -/
def pickInterpolation : Picking Text
  | .leaf (.written (.interpolation expression)) _ => some expression.trim
  | .leaf (.written (.char _)) _ | .leaf (.written (.rawMarkup _)) _ | .leaf (.mark _) _ => none
  | .nil | .loop _ _ _ | .conditional _ _ _ _ => none

/-- A recogniser finds a leaf, or passes over it, as the picking says. -/
def FindsLeaf {β : Type} (recognise : Recogniser β) (pick : Picking β) (piece : Piece) : Prop :=
  ∀ next, (pick (.leaf piece next) = none ∧ Passes recognise piece.text) ∨
    ∃ found, pick (.leaf piece next) = some found ∧ piece.text ≠ [] ∧
      ∀ rest, recognise (piece.text ++ rest) = some (found, piece.text.length)

/-- A leaf in front of an outline is read as the picking says. -/
theorem FindsLeaf.scan_text {β : Type} {recognise : Recogniser β} {pick : Picking β} {piece : Piece}
    (h : FindsLeaf recognise pick piece) {next : Outline Piece} {rest : Text}
    (hnext : Segment.scan recognise 0 (next.text Piece.text ++ rest) =
      next.segments pick ++ Segment.scan recognise 0 rest) :
    Segment.scan recognise 0 ((Outline.leaf piece next).text Piece.text ++ rest) =
      (Outline.leaf piece next).segments pick ++ Segment.scan recognise 0 rest := by
  rw [Outline.text, List.append_assoc]
  rcases h next with ⟨hpick, hpass⟩ | ⟨found, hpick, hne, hfound⟩
  · rw [Segment.scan_of_passes hpass, hnext]
    simp only [Outline.segments, hpick, List.append_assoc]
  · rw [Segment.scan_item hne (hfound _), hnext]
    simp only [Outline.segments, hpick, List.cons_append, List.nil_append]

section

variable {template : ProcessedTemplate} {keep : Piece → Prop} {outline : Outline Piece}

private theorem findsLeaf_rawMarkup {piece : Piece} (hwell : piece.WellFormed template) :
    FindsLeaf rawMarkup pickRawMarkup piece := by
  intro next
  match piece, hwell with
  | .written (.char c), hwell => exact Or.inl ⟨rfl, atOpening_rawMarkup.passes_of_not_mem hwell.1⟩
  | .written (.interpolation expression), hwell =>
    exact Or.inl ⟨rfl, passes_interpolation atOpening_rawMarkup atSigil_rawMarkup hwell⟩
  | .written (.rawMarkup content), hwell =>
    exact Or.inr ⟨content.trim, rfl, List.cons_ne_nil _ _, rawMarkup_append hwell⟩
  | .mark directive, _ =>
    exact Or.inl ⟨rfl, atOpening_rawMarkup.passes_of_not_mem (not_mem_render directive)⟩

/-- Among leaves that are not raw markup, interpolations are found and nothing else is. -/
private theorem findsLeaf_interpolation {piece : Piece} (hwell : piece.WellFormed template)
    (hraw : piece.NotRaw) : FindsLeaf interpolation pickInterpolation piece := by
  intro next
  match piece, hraw, hwell with
  | .written (.char c), _, hwell =>
    exact Or.inl ⟨rfl, atOpening_interpolation.passes_of_not_mem hwell.1⟩
  | .written (.interpolation expression), _, hwell =>
    exact Or.inr ⟨expression.trim, rfl, List.cons_ne_nil _ _, interpolation_append hwell⟩
  | .mark directive, _, _ =>
    exact Or.inl ⟨rfl, atOpening_interpolation.passes_of_not_mem (not_mem_render directive)⟩

/-- The text of an outline without conditionals is read into its raw markup. -/
theorem segments_rawMarkup (hbare : outline.Bare keep)
    (hwell : outline.WellFormed (Piece.WellFormed template)) :
    Segment.segments rawMarkup (outline.text Piece.text) = outline.segments pickRawMarkup := by
  have hscan (rest : Text) : Segment.scan rawMarkup 0 (outline.text Piece.text ++ rest) =
      outline.segments pickRawMarkup ++ Segment.scan rawMarkup 0 rest := by
    induction hbare generalizing rest with
    | nil => rfl
    | leaf _ _ ihnext => exact (findsLeaf_rawMarkup hwell.1).scan_text (ihnext hwell.2 rest)
    | loop _ _ ihbody ihnext =>
      obtain ⟨hheader, hbody, hnext⟩ := hwell
      have htoken := hheader.passes atOpening_rawMarkup fun _ => rawMarkup_eq_none rfl
      have hclosing := passes_eachClosing atOpening_rawMarkup fun _ => rawMarkup_eq_none rfl
      simp only [Outline.text, List.append_assoc]
      rw [Segment.scan_of_passes htoken, ihbody hbody, Segment.scan_of_passes hclosing,
        ihnext hnext]
      simp only [Outline.segments, pickRawMarkup, List.append_assoc]
  have hall := hscan []
  rwa [List.append_nil, Segment.scan, List.append_nil] at hall

/-- The text of leaves without raw markup is read into its interpolations. -/
theorem segments_interpolation (hflat : outline.Flat Piece.NotRaw)
    (hwell : outline.WellFormed (Piece.WellFormed template)) :
    Segment.segments interpolation (outline.text Piece.text) =
      outline.segments pickInterpolation := by
  have hscan (rest : Text) : Segment.scan interpolation 0 (outline.text Piece.text ++ rest) =
      outline.segments pickInterpolation ++ Segment.scan interpolation 0 rest := by
    induction hflat generalizing rest with
    | nil => rfl
    | leaf hraw _ ihnext =>
      exact (findsLeaf_interpolation hwell.1 hraw).scan_text (ihnext hwell.2 rest)
  have hall := hscan []
  rwa [List.append_nil, Segment.scan, List.append_nil] at hall

/-! ## Markup and placeholders -/

/-- The text of a mark starts no component. -/
theorem isTagless_render (directive : Directive) :
    isTagless directive.placeholder.render = true := by
  obtain ⟨inner, he, hinner⟩ := Placeholder.render_edges directive.isMarker_placeholder
  have hfree (text : Text) (h : '<' ∉ text) : isTagless text = true := by
    induction text with
    | nil => rfl
    | cons c text ih =>
      rw [List.mem_cons, not_or] at h
      have hc : (c == '<') = false := beq_eq_false_iff_ne.mpr (Ne.symm h.1)
      rw [isTagless, hc, ih h.2]
      rfl
  have htail : '<' ∉ '!' :: (inner ++ ['>']) := by
    simp only [List.mem_cons, List.mem_append, List.not_mem_nil, or_false, not_or]
    exact ⟨by decide, fun hm => absurd (hinner _ hm) (by decide), by decide⟩
  rw [he, isTagless, hfree _ htail]
  rfl

/-- A text of markup and placeholders starts no component. -/
theorem Outline.Flat.isTagless_text (hflat : outline.Flat Piece.IsPlain) {run : Text}
    (hclear : outline.Clear run) : isTagless (run ++ outline.text Piece.text) = true := by
  induction hflat generalizing run with
  | nil =>
    rw [Outline.text, List.append_nil]
    exact hclear.isTagless
  | @leaf piece next hplain _ ihnext =>
    match piece, hplain with
    | .written (.char c), _ =>
      rw [Outline.text, ← List.append_assoc]
      exact ihnext hclear
    | .mark directive, _ =>
      obtain ⟨inner, he, _⟩ := Placeholder.render_edges directive.isMarker_placeholder
      have hnext := ihnext hclear.2
      rw [Outline.text, isTagless_append_iff, isTagless_append_iff]
      refine ⟨hclear.1.isTagless, ⟨isTagless_render directive, hnext, fun hlast => ?_⟩, fun _ => ?_⟩
      · rw [Piece.text, he, ← List.cons_append, ← List.cons_append, List.getLast?_append] at hlast
        cases hlast
      · rw [Piece.text, he]
        rfl

/-- No component starts at a character that is no angle bracket, or before a character that is no
capital. -/
theorem component_eq_none_of_head (name : Text) {c : Char} {rest : Text}
    (h : c = '<' → rest.head?.any Char.isUpper = false) : component name (c :: rest) = none := by
  by_cases hc : '<' = c
  · have htag : (rest.takeWhile isTagChar).head?.any Char.isUpper = false := by
      have hupper := h hc.symm
      cases rest with
      | nil => rfl
      | cons d rest =>
        rw [List.takeWhile_cons]
        split
        · exact hupper
        · rfl
    simp only [component, Text.after?, if_pos hc, Option.bind_eq_bind, Option.bind_some, htag,
      Bool.not_false, if_true]
  · simp only [component, Text.after?, if_neg hc, Option.bind_eq_bind, Option.bind_none]

private theorem component_eq_none (runtimeName : Text) {c : Char} {rest : Text}
    (h : isTagless (c :: rest) = true) : component runtimeName (c :: rest) = none := by
  rw [isTagless, Bool.and_eq_true, Bool.not_eq_true'] at h
  refine component_eq_none_of_head runtimeName fun hc => ?_
  subst hc
  exact h.1

/-- A text in which no component starts stays. -/
theorem replaceComponents_of_isTagless (runtimeName : Text) {text : Text}
    (h : isTagless text = true) (registry : Registry) :
    replaceComponents runtimeName text registry = (text, registry) := by
  have hscan : Segment.segments (component runtimeName) text = Segment.plain text := by
    induction text with
    | nil => rfl
    | cons c text ih =>
      have hrest : isTagless text = true := by
        rw [isTagless, Bool.and_eq_true] at h
        exact h.2
      have htail : Segment.scan (component runtimeName) 0 text = Segment.plain text := ih hrest
      rw [Segment.segments, Segment.scan, component_eq_none runtimeName h, htail]
      rfl
  rw [replaceComponents, hscan, Registry.replace, Registry.replaceFrom_plain]

/-- A text of markup and placeholders shows the normal form of its outline. -/
theorem Outline.Flat.readWith_text (hordered : Ordered template.directives)
    (hsize : template.directives.size ≤ Placeholder.indexBound) (hflat : outline.Flat Piece.IsPlain)
    (hwell : outline.WellFormed (Piece.WellFormed template)) {run : Text}
    (hclear : outline.Clear run) :
    template.readWith template.read (run ++ outline.text Piece.text) =
      .markup run (outline.normal (Piece.place template)) := by
  have hrun {run : Text} (h : IsMarkup run) (next : Outline Insert) :
      (Segment.segments Placeholder.recognise run).foldr
          (template.placeSegment template.read) next =
        .markup run next := by
    rw [ProcessedTemplate.foldr_placeSegment_eq_markup _ _ next, Segment.sources_segments]
    intro placeholder hm
    rw [← Placeholder.references_eq_values, Placeholder.references_eq_nil_of_absent h.absent] at hm
    cases hm
  induction hflat generalizing run with
  | nil =>
    rw [Outline.text, List.append_nil]
    exact hrun hclear .nil
  | @leaf piece next hplain _ ihnext =>
    match piece, hplain, hwell with
    | .written (.char c), _, hwell =>
      rw [Outline.text, ← List.append_assoc]
      exact (ihnext hwell.2 hclear).trans (Outline.markup_append run [c] _)
    | .mark directive, _, ⟨⟨hmem, _⟩, hnextWell⟩ =>
      have hindex : directive.index < Placeholder.indexBound := by
        have hget := hordered.getElem?_index hmem
        obtain ⟨hlt, _⟩ := Array.getElem?_eq_some_iff.mp hget
        omega
      have hafter := Placeholder.segments_append_of_sealed
        (Placeholder.sealed_append_render [] directive.placeholder (next.text Piece.text))
      rw [List.nil_append, Placeholder.segments_render directive.isMarker_placeholder hindex]
        at hafter
      have hnext := ihnext hnextWell hclear.2
      rw [List.nil_append, ProcessedTemplate.readWith] at hnext
      rw [Outline.text, Piece.text, ProcessedTemplate.readWith,
        Placeholder.segments_append_of_sealed
          (Placeholder.sealed_render_append run directive.placeholder (next.text Piece.text)),
        List.foldr_append, hafter, List.singleton_append, List.foldr_cons, hnext, hrun hclear.1]
      simp only [ProcessedTemplate.placeSegment,
        ProcessedTemplate.resolve?_placeholder hordered hmem]
      rfl

/-- A text of markup and placeholders shows the normal form of its outline, all placeholders
followed. -/
theorem Outline.Flat.read_text (hordered : Ordered template.directives)
    (hsize : template.directives.size ≤ Placeholder.indexBound) (hflat : outline.Flat Piece.IsPlain)
    (hwell : outline.WellFormed (Piece.WellFormed template)) (hclear : outline.Clear []) :
    template.read (outline.text Piece.text) = outline.normal (Piece.place template) := by
  rw [ProcessedTemplate.read_eq hordered]
  exact hflat.readWith_text hordered hsize hwell hclear

end

end Template

end ComponentFile
