import ComponentFile.Proofs.Template.Replacement
import ComponentFile.Proofs.Text.Slicing

/-!
# Finding placeholders

The search reads a text once from left to right. Since a spelled placeholder has an angle bracket at
each end and none inside, the text may be cut before and after it without changing what is read on
either side. So the search finds exactly the spelled placeholders, each at its place, whatever
comments stand around them.
-/

namespace ComponentFile.Placeholder

variable {placeholder : Placeholder}

/-- No placeholder is cut in two before a spelled one. -/
theorem Spells.sealed_left {piece : Text} (h : Spells placeholder piece) (before after : Text) :
    Sealed before (piece ++ after) := by
  obtain ⟨inner, rfl, -⟩ := h.edges
  refine Or.inl fun c hc => Or.inl ?_
  exact (Option.some.inj hc).symm

/-- No placeholder is cut in two after a spelled one. -/
theorem Spells.sealed_right {piece : Text} (h : Spells placeholder piece) (before after : Text) :
    Sealed (before ++ piece) after := by
  obtain ⟨inner, rfl, -⟩ := h.edges
  refine Or.inr fun c hc => Or.inl ?_
  rw [← List.cons_append, ← List.append_assoc, List.getLast?_append] at hc
  exact (Option.some.inj hc).symm

/-- A spelled placeholder is one segment, and the texts around it are read on their own. -/
theorem Spells.segments_eq {piece : Text} (h : Spells placeholder piece) (before after : Text) :
    Segment.segments recognise (before ++ piece ++ after) =
      Segment.segments recognise before ++ .item piece placeholder ::
        Segment.segments recognise after := by
  have hwhole : Segment.segments recognise piece = [.item piece placeholder] := by
    have hread : recognise piece = some (placeholder, piece.length) :=
      recognise_eq_some_iff.mpr ⟨piece, [], h, (List.append_nil piece).symm, rfl⟩
    obtain ⟨inner, rfl, -⟩ := h.edges
    exact Segment.segments_whole hread
  have hleft := h.sealed_left before []
  rw [List.append_nil] at hleft
  rw [segments_append_of_sealed (h.sealed_right before after), segments_append_of_sealed hleft,
    hwhole, List.append_assoc, List.singleton_append]

private theorem spells_of_mem_segments {text source : Text}
    (h : .item source placeholder ∈ Segment.segments recognise text) :
    Spells placeholder source := by
  obtain ⟨tail, length, hread, rfl⟩ := Segment.exists_of_mem_scan h
  obtain ⟨piece, rest, hs, rfl, rfl⟩ := recognise_eq_some_iff.mp hread
  rwa [List.take_left]

/-- A placeholder is found exactly where the text spells it. -/
theorem mem_findAll_iff {text : Text} {found : Found} :
    found ∈ findAll text ↔
      ∃ piece, Text.slice? found.start found.stop text = some piece ∧
        Spells found.toPlaceholder piece := by
  have hlocated : found ∈ findAll text ↔ (found.toPlaceholder, found.start, found.stop) ∈
      Segment.located 0 (Segment.segments recognise text) := by
    rw [findAll, List.mem_map]
    constructor
    · rintro ⟨⟨placeholder, start, stop⟩, hmem, rfl⟩
      exact hmem
    · intro hmem
      exact ⟨_, hmem, rfl⟩
  rw [hlocated, Segment.mem_located_iff]
  constructor
  · rintro ⟨left, source, right, hsegments, hstart, hstop⟩
    have hitem : .item source found.toPlaceholder ∈ Segment.segments recognise text := by
      rw [hsegments]
      exact List.mem_append_right _ List.mem_cons_self
    have hspells := spells_of_mem_segments hitem
    refine ⟨source, Text.slice?_eq_some_iff.mpr ⟨Segment.sources left, Segment.sources right, ?_,
      ?_, ?_⟩, hspells⟩
    · have hsources := Segment.sources_segments recognise text
      rw [hsegments, Segment.sources_append, Segment.sources_cons] at hsources
      rw [List.append_assoc]
      exact hsources.symm
    · rw [hstart, Nat.zero_add]
    · rw [hstop, hstart, Nat.zero_add]
  · rintro ⟨piece, hslice, hspells⟩
    obtain ⟨before, after, rfl, hstart, hstop⟩ := Text.slice?_eq_some_iff.mp hslice
    refine ⟨_, piece, _, hspells.segments_eq before after, ?_, ?_⟩
    · rw [hstart, Segment.sources_segments, Nat.zero_add]
    · rw [hstop, hstart]

/-- Found placeholders stand in order and do not overlap. -/
theorem pairwise_findAll (text : Text) :
    (findAll text).Pairwise fun left right => left.stop ≤ right.start := by
  rw [findAll, List.pairwise_map]
  exact Segment.pairwise_located 0 _

/-- A found placeholder takes up some bytes. -/
theorem start_lt_stop_of_mem_findAll {text : Text} {found : Found} (h : found ∈ findAll text) :
    found.start < found.stop := by
  obtain ⟨piece, hslice, hspells⟩ := mem_findAll_iff.mp h
  obtain ⟨before, after, -, hstart, hstop⟩ := Text.slice?_eq_some_iff.mp hslice
  obtain ⟨inner, rfl, -⟩ := hspells.edges
  have hpos := Text.length_le_byteSize ('<' :: (inner ++ ['>']))
  rw [List.length_cons] at hpos
  omega

/-- The search lists exactly the placeholders that the text spells, each with its byte span, in
increasing order and without overlap. A rendered placeholder is found wherever it is put. -/
theorem findAll_lists_spelled (text : Text) :
    (∀ found : Found, found ∈ findAll text ↔
      ∃ piece, Text.slice? found.start found.stop text = some piece ∧
        Spells found.toPlaceholder piece) ∧
    (findAll text).Pairwise (fun left right => left.start < right.start ∧ left.stop ≤ right.start) ∧
    ∀ (placeholder : Placeholder) (before after : Text), isMarker placeholder.marker = true →
      placeholder.index < indexBound → text = before ++ placeholder.render ++ after →
      { placeholder with
        start := before.byteSize, stop := before.byteSize + placeholder.render.byteSize } ∈
          findAll text := by
  refine ⟨fun found => mem_findAll_iff, ?_, ?_⟩
  · refine (pairwise_findAll text).imp_of_mem fun {left right} hleft _ hle => ⟨?_, hle⟩
    exact Nat.lt_of_lt_of_le (start_lt_stop_of_mem_findAll hleft) hle
  · rintro placeholder before after hm hb rfl
    refine mem_findAll_iff.mpr ⟨placeholder.render, ?_, spells_render hm hb⟩
    exact Text.slice?_eq_some_iff.mpr ⟨before, after, rfl, rfl, rfl⟩

/-- A placeholder between a comment that is never closed and the end of another one is found. -/
theorem findAll_lists_spelled_unclosed :
    { marker := ['A', '_'], index := 7, start := 5, stop := 18 } ∈
      findAll (opening ++ render { marker := ['A', '_'], index := 7 } ++ closing) :=
  (findAll_lists_spelled _).2.2 { marker := ['A', '_'], index := 7 } opening closing
    (by decide) (by decide) rfl

end ComponentFile.Placeholder
