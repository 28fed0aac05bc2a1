import ComponentFile.Proofs.Directive.Placeholder
import ComponentFile.Proofs.Text.Pieces

/-!
# The placeholders a text mentions

Since spelled placeholders never overlap, the placeholders of a text can be read off place by place.
Two laws follow: cutting a text never makes a placeholder (`references_append_sublist`), and putting
a rendered placeholder into a text adds at most that one (`count_references_insert_le`).
-/

namespace ComponentFile.Placeholder

/-- The placeholders found in a text, in order. -/
def references (text : Text) : List Placeholder := (findAll text).map Found.toPlaceholder

theorem references_eq_values (text : Text) :
    references text = Segment.values (Segment.segments recognise text) := by
  rw [← Segment.map_fst_located 0]
  simp only [references, findAll, List.map_map, Function.comp_def]

@[simp] theorem references_nil : references [] = [] := rfl

/-- Characters that start no placeholder can be passed over. -/
theorem references_append_of_not_mem {front : Text} (h : '<' ∉ front) (text : Text) :
    references (front ++ text) = references text := by
  induction front with
  | nil => rfl
  | cons c front ih =>
    have hc : c ≠ '<' := fun he => h (he ▸ List.mem_cons_self)
    have htail := ih fun hm => h (List.mem_cons_of_mem _ hm)
    rw [← htail, references_eq_values, references_eq_values, List.cons_append, Segment.segments,
      Segment.scan, recognise_eq_none_of_ne hc, Segment.values_char]
    rfl

/-- The placeholders of a text, place by place. -/
theorem references_cons (c : Char) (rest : Text) :
    references (c :: rest) = ((recognise (c :: rest)).map Prod.fst).toList ++ references rest := by
  cases hr : recognise (c :: rest) with
  | none =>
    rw [references_eq_values, Segment.segments, Segment.scan, hr, Segment.values_char]
    exact (references_eq_values rest).symm
  | some pair =>
    obtain ⟨placeholder, length⟩ := pair
    obtain ⟨piece, after, hs, he, rfl⟩ := recognise_eq_some_iff.mp hr
    obtain ⟨inner, rfl, hinner⟩ := hs.edges
    obtain rfl : c = '<' := (List.cons.inj he).1
    obtain rfl : rest = inner ++ ['>'] ++ after := (List.cons.inj he).2
    -- the characters of the placeholder after its first hold no opening bracket
    have hnot : '<' ∉ inner ++ ['>'] := by
      intro hm
      rcases List.mem_append.mp hm with hm | hm
      · exact absurd (hinner _ hm) (by decide)
      · exact absurd (List.mem_singleton.mp hm) (by decide)
    rw [references_append_of_not_mem hnot, references_eq_values, Segment.segments, Segment.scan, hr]
    simp only [List.length_cons, Segment.values_item, Option.map_some, Option.toList_some,
      Segment.scan_eq_scan_drop recognise (inner ++ ['>']).length, List.drop_left]
    rw [references_eq_values]
    rfl

/-- On both sides of a sealed place the placeholders are those of the pieces. -/
theorem references_append_of_sealed {left right : Text} (h : Sealed left right) :
    references (left ++ right) = references left ++ references right := by
  simp only [references_eq_values, segments_append_of_sealed h, Segment.values_append]

/-- Cutting a text loses at most the placeholders it cuts in two. -/
theorem references_append_sublist (left right : Text) :
    (references left ++ references right).Sublist (references (left ++ right)) := by
  induction left with
  | nil => simp only [references_nil, List.nil_append, List.Sublist.refl]
  | cons c left ih =>
    rw [List.cons_append, references_cons c left, references_cons c (left ++ right),
      List.append_assoc]
    refine List.Sublist.append ?_ ih
    cases hr : recognise (c :: left) with
    | none => exact List.nil_sublist _
    | some pair =>
      have hmore : recognise (c :: (left ++ right)) = some pair :=
        recognise_append_of_eq_some hr right
      rw [hmore]

/-- A piece of a text mentions no other placeholders than the text. -/
theorem references_subset_of_isInfix {piece text : Text} (h : piece <:+: text) :
    references piece ⊆ references text := by
  obtain ⟨front, back, rfl⟩ := h
  intro placeholder hm
  refine (references_append_sublist (front ++ piece) back).subset (List.mem_append_left _ ?_)
  exact (references_append_sublist front piece).subset (List.mem_append_right _ hm)

/-- A text in which no placeholder is spelled mentions none. -/
theorem references_eq_nil_of_absent {text : Text} (h : Absent text) : references text = [] := by
  induction text with
  | nil => rfl
  | cons c rest ih =>
    have hrest : Absent rest := fun placeholder piece hs hp =>
      h placeholder piece hs (hp.trans (List.suffix_cons c rest).isInfix)
    rw [references_cons, ih hrest, List.append_nil]
    cases hr : recognise (c :: rest) with
    | none => rfl
    | some pair =>
      obtain ⟨piece, after, hs, he, _⟩ := recognise_eq_some_iff.mp hr
      exact absurd (he ▸ List.infix_append' [] piece after) (h _ piece hs)

/-- A text in which no placeholder is found spells none, so that absence can be decided. -/
theorem absent_of_references_eq_nil {text : Text} (h : references text = []) : Absent text := by
  intro placeholder piece hs hp
  obtain ⟨inner, he, _⟩ := hs.edges
  have hread : recognise piece = some (placeholder, piece.length) :=
    recognise_eq_some_iff.mpr ⟨piece, [], hs, (List.append_nil piece).symm, rfl⟩
  have hmem : placeholder ∈ references piece := by
    rw [he] at hread ⊢
    rw [references_cons, hread]
    exact List.mem_cons_self
  have hsub := references_subset_of_isInfix hp hmem
  rw [h] at hsub
  cases hsub

/-- A rendered placeholder mentions itself at most, and nothing else. -/
private theorem references_render_sublist {placeholder : Placeholder}
    (hm : isMarker placeholder.marker = true) :
    (references placeholder.render).Sublist [placeholder] := by
  obtain ⟨inner, he, hinner⟩ := render_edges hm
  have hread := recognise_render hm []
  have hnot : '<' ∉ '!' :: (inner ++ ['>']) := by
    intro hm
    simp only [List.mem_cons, List.mem_append, List.not_mem_nil, or_false] at hm
    rcases hm with hm | hm | hm
    · exact absurd hm (by decide)
    · exact absurd (hinner _ hm) (by decide)
    · exact absurd hm (by decide)
  have htail : references ('!' :: (inner ++ ['>'])) = [] := by
    simpa only [List.append_nil, references_nil] using references_append_of_not_mem hnot []
  rw [List.append_nil, he] at hread
  rw [he, references_cons, hread, htail, List.append_nil]
  split
  · exact List.Sublist.refl _
  · exact List.nil_sublist _

/-- Putting a rendered placeholder between two texts adds at most one mention of it. -/
theorem count_references_insert_le {placeholder : Placeholder}
    (hm : isMarker placeholder.marker = true) (before after : Text) (other : Placeholder) :
    (references (before ++ placeholder.render ++ after)).count other ≤
      (references before).count other + [placeholder].count other +
        (references after).count other := by
  rw [references_append_of_sealed (sealed_append_render before placeholder after),
    ← List.append_nil placeholder.render,
    references_append_of_sealed (sealed_render_append before placeholder []), List.append_nil,
    List.count_append, List.count_append]
  have hcount := (references_render_sublist hm).count_le other
  omega

/-- Putting a rendered placeholder between two texts brings in no other placeholder. -/
theorem mem_references_insert {placeholder : Placeholder}
    (hm : isMarker placeholder.marker = true) {before after : Text} {other : Placeholder}
    (h : other ∈ references (before ++ placeholder.render ++ after)) :
    other ∈ references before ∨ other = placeholder ∨ other ∈ references after := by
  have hcount := count_references_insert_le hm before after other
  rw [← List.count_pos_iff] at h
  by_contra hnot
  rw [not_or, not_or] at hnot
  have hone : [placeholder].count other = 0 :=
    List.count_eq_zero_of_not_mem fun hmem => hnot.2.1 (List.mem_singleton.mp hmem)
  rw [List.count_eq_zero_of_not_mem hnot.1, List.count_eq_zero_of_not_mem hnot.2.2, hone] at hcount
  omega

/-- How often the texts together mention a placeholder. -/
def mentions (placeholder : Placeholder) (texts : List Text) : Nat :=
  (texts.map fun text => (references text).count placeholder).sum

@[simp] theorem mentions_cons (placeholder : Placeholder) (text : Text) (texts : List Text) :
    mentions placeholder (text :: texts) =
      (references text).count placeholder + mentions placeholder texts := by
  simp only [mentions, List.map_cons, List.sum_cons]

@[simp] theorem mentions_append (placeholder : Placeholder) (texts others : List Text) :
    mentions placeholder (texts ++ others) =
      mentions placeholder texts + mentions placeholder others := by
  simp only [mentions, List.map_append, List.sum_append]

/-- A placeholder of one of the texts is mentioned. -/
theorem mentions_pos_of_mem {placeholder : Placeholder} {text : Text} {texts : List Text}
    (ht : text ∈ texts) (hp : placeholder ∈ references text) : 0 < mentions placeholder texts := by
  have hle : (references text).count placeholder ≤ mentions placeholder texts :=
    List.le_sum_of_mem (List.mem_map_of_mem ht)
  exact (List.count_pos_iff.mpr hp).trans_le hle

/-- The pieces of a text mention a placeholder at most as often as the text. -/
theorem mentions_le_of_supplies {text : Text} {pieces : List Text} (h : text.Supplies pieces)
    (placeholder : Placeholder) :
    mentions placeholder pieces ≤ (references text).count placeholder := by
  refine h.sum_le (fun text => (references text).count placeholder) fun left right => ?_
  rw [← List.count_append]
  exact (references_append_sublist left right).count_le placeholder

end ComponentFile.Placeholder
