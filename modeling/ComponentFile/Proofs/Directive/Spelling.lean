import ComponentFile.Proofs.Directive.References
import ComponentFile.Proofs.Text.Lines
import ComponentFile.Proofs.Text.Trimming

/-!
# Placeholders as pieces of a text

A text mentions a placeholder exactly when some connected piece of it spells the placeholder. So
what is mentioned can be followed through cuts by looking at pieces: a character that no placeholder
has separates what is mentioned on its two sides, and trimming loses nothing.
-/

namespace ComponentFile

namespace Text

/-- A piece that starts with a character which the front lacks lies behind the front. -/
theorem isInfix_of_append_left {c : Char} {piece left right : Text}
    (h : c :: piece <:+: left ++ right) (hleft : c ∉ left) : c :: piece <:+: right := by
  induction left with
  | nil => exact h
  | cons d left ih =>
    rw [List.mem_cons, not_or] at hleft
    rw [List.cons_append, List.infix_cons_iff] at h
    rcases h with h | h
    · exact absurd (List.cons_prefix_cons.mp h).1 hleft.1
    · exact ih h hleft.2

/-- A piece that ends with a character which the back lacks lies before the back. -/
theorem isInfix_of_append_right {c : Char} {piece left right : Text}
    (h : piece ++ [c] <:+: left ++ right) (hright : c ∉ right) : piece ++ [c] <:+: left := by
  rw [← List.reverse_infix, List.reverse_append, List.reverse_append] at h
  rw [← List.reverse_infix, List.reverse_append]
  exact isInfix_of_append_left h (by rwa [List.mem_reverse])

/-- A piece with no blank at its two ends survives trimming. -/
theorem isInfix_trim {c d : Char} {piece text : Text} (h : c :: (piece ++ [d]) <:+: text)
    (hc : isBlank c = false) (hd : isBlank d = false) : c :: (piece ++ [d]) <:+: text.trim := by
  have hstart : c :: (piece ++ [d]) <:+: text.trimStart := by
    rw [← List.takeWhile_append_dropWhile (p := isBlank) (l := text)] at h
    refine isInfix_of_append_left h fun hm => ?_
    have hblank := List.mem_takeWhile_imp hm
    rw [hc] at hblank
    cases hblank
  have hsplit : text.trimStart =
      text.trimStart.trimEnd ++ (text.trimStart.reverse.takeWhile isBlank).reverse := by
    rw [trimEnd, ← List.reverse_append, List.takeWhile_append_dropWhile, List.reverse_reverse]
  rw [hsplit, ← List.cons_append] at hstart
  refine isInfix_of_append_right hstart fun hm => ?_
  have hblank := List.mem_takeWhile_imp (List.mem_reverse.mp hm)
  rw [hd] at hblank
  cases hblank

end Text

namespace Placeholder

variable {placeholder : Placeholder}

/-- A text mentions the placeholders that its connected pieces spell. -/
theorem mem_references_iff {text : Text} :
    placeholder ∈ references text ↔ ∃ piece, Spells placeholder piece ∧ piece <:+: text := by
  constructor
  · intro h
    induction text with
    | nil => cases h
    | cons c rest ih =>
      rw [references_cons, List.mem_append, Option.mem_toList, Option.map_eq_some_iff] at h
      rcases h with ⟨⟨found, length⟩, hread, rfl⟩ | h
      · obtain ⟨piece, after, hs, he, -⟩ := recognise_eq_some_iff.mp hread
        exact ⟨piece, hs, he ▸ (List.prefix_append piece after).isInfix⟩
      · obtain ⟨piece, hs, hp⟩ := ih h
        exact ⟨piece, hs, hp.trans (List.suffix_cons c rest).isInfix⟩
  · rintro ⟨piece, hs, hp⟩
    refine references_subset_of_isInfix hp ?_
    obtain ⟨inner, he, -⟩ := hs.edges
    have hread : recognise piece = some (placeholder, piece.length) :=
      recognise_eq_some_iff.mpr ⟨piece, [], hs, (List.append_nil piece).symm, rfl⟩
    rw [he] at hread ⊢
    rw [references_cons, hread]
    exact List.mem_cons_self

/-- A character that a placeholder can be spelled with. -/
def isSpelling (c : Char) : Bool :=
  c == '<' || c == '!' || c == '-' || c == ' ' || c == '_' || c == '>' || c.isUpper || c.isDigit

/-- Placeholders are spelled with few characters. -/
theorem Spells.isSpelling {piece : Text} (h : Spells placeholder piece) {c : Char}
    (hc : c ∈ piece) :
    isSpelling c = true := by
  obtain ⟨hm, -, digits, hd, -, rfl⟩ := h
  simp only [written, opening, closing, List.mem_append, List.mem_cons, List.not_mem_nil,
    or_false] at hc
  rcases hc with (((rfl | rfl | rfl | rfl | rfl) | hc) | (rfl | hc)) | (rfl | rfl | rfl | rfl)
  any_goals decide
  · have hmarker := (isMarker_iff.mp hm).2 c hc
    rw [isMarkerChar, Bool.or_eq_true, beq_iff_eq] at hmarker
    rcases hmarker with hupper | rfl
    · simp only [Placeholder.isSpelling, hupper, Bool.or_true, Bool.true_or]
    · decide
  · simp only [Placeholder.isSpelling, (isDigits_iff.mp hd).2 c hc, Bool.or_true]

/-- A character that no placeholder has separates what is mentioned on its two sides. -/
theorem mem_references_append_cons_iff {c : Char} (hc : isSpelling c = false) (left right : Text) :
    placeholder ∈ references (left ++ c :: right) ↔
      placeholder ∈ references left ∨ placeholder ∈ references right := by
  have hnot {piece : Text} (hs : Spells placeholder piece) : c ∉ piece := by
    intro hm
    rw [hs.isSpelling hm] at hc
    cases hc
  simp only [mem_references_iff]
  constructor
  · rintro ⟨piece, hs, hp⟩
    rcases (Text.isInfix_append_cons_iff (hnot hs) left right).mp hp with hp | hp
    · exact .inl ⟨piece, hs, hp⟩
    · exact .inr ⟨piece, hs, hp⟩
  · rintro (⟨piece, hs, hp⟩ | ⟨piece, hs, hp⟩)
    · exact ⟨piece, hs, hp.trans (List.prefix_append _ _).isInfix⟩
    · exact ⟨piece, hs,
        hp.trans ((List.suffix_cons c right).trans (List.suffix_append _ _)).isInfix⟩

/-- At a sealed place what is mentioned is mentioned on one side. -/
theorem mem_references_append_iff {left right : Text} (h : Sealed left right) :
    placeholder ∈ references (left ++ right) ↔
      placeholder ∈ references left ∨ placeholder ∈ references right := by
  rw [references_append_of_sealed h, List.mem_append]

/-- Trimming loses no placeholder. -/
theorem mem_references_trim_iff {text : Text} :
    placeholder ∈ references text.trim ↔ placeholder ∈ references text := by
  constructor
  · exact fun h => references_subset_of_isInfix (Text.trim_isInfix text) h
  · intro h
    obtain ⟨piece, hs, hp⟩ := mem_references_iff.mp h
    obtain ⟨inner, rfl, -⟩ := hs.edges
    exact mem_references_iff.mpr ⟨_, hs, Text.isInfix_trim hp (by decide) (by decide)⟩

/-- A rendered placeholder with an index in range is mentioned wherever it stands. -/
theorem mem_references_render (hm : isMarker placeholder.marker = true)
    (hb : placeholder.index < indexBound) (before after : Text) :
    placeholder ∈ references (before ++ placeholder.render ++ after) :=
  mem_references_iff.mpr ⟨_, spells_render hm hb, List.infix_append _ _ _⟩

end Placeholder

end ComponentFile
