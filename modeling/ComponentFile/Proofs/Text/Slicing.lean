import ComponentFile.Proofs.Text.Lines
import Mathlib.Order.Bounds.Basic

/-!
# Slices by byte offsets

Offsets count the bytes of the UTF-8 form, and a slice exists only between character boundaries. So
a slice is the same thing as a connected piece of the text together with its place: its start is the
byte size of what stands before it, and its stop adds its own byte size. A cut at a mark finds the
least offset of the mark.
-/

namespace ComponentFile.Text

private theorem dropBytes?_append (before rest : Text) :
    dropBytes? before.byteSize (before ++ rest) = some rest := by
  induction before with
  | nil => rw [byteSize_nil, List.nil_append, dropBytes?]
  | cons c before ih =>
    have hpos := c.utf8Size_pos
    obtain ⟨n, hn⟩ : ∃ n, c.utf8Size + byteSize before = n + 1 :=
      Nat.exists_eq_add_one_of_ne_zero (by omega)
    have hle : c.utf8Size ≤ n + 1 := by omega
    have hleft : n + 1 - c.utf8Size = byteSize before := by omega
    rw [byteSize_cons, List.cons_append, hn, dropBytes?, if_pos hle, hleft, ih]

private theorem exists_of_dropBytes? {n : Nat} {text rest : Text}
    (h : dropBytes? n text = some rest) :
    ∃ before, text = before ++ rest ∧ n = before.byteSize := by
  fun_induction dropBytes? n text with
  | case1 text => exact ⟨[], Option.some.inj h, rfl⟩
  | case2 => cases h
  | case3 n c text hle ih =>
    obtain ⟨before, rfl, hsize⟩ := ih h
    refine ⟨c :: before, rfl, ?_⟩
    rw [byteSize_cons]
    omega
  | case4 => cases h

private theorem takeBytes?_append (piece after : Text) :
    takeBytes? piece.byteSize (piece ++ after) = some piece := by
  induction piece with
  | nil => rw [byteSize_nil, takeBytes?]
  | cons c piece ih =>
    have hpos := c.utf8Size_pos
    obtain ⟨n, hn⟩ : ∃ n, c.utf8Size + byteSize piece = n + 1 :=
      Nat.exists_eq_add_one_of_ne_zero (by omega)
    have hle : c.utf8Size ≤ n + 1 := by omega
    have hleft : n + 1 - c.utf8Size = byteSize piece := by omega
    rw [byteSize_cons, List.cons_append, hn, takeBytes?, if_pos hle, hleft, ih, Option.map_some]

private theorem exists_of_takeBytes? {n : Nat} {text piece : Text}
    (h : takeBytes? n text = some piece) :
    ∃ after, text = piece ++ after ∧ n = piece.byteSize := by
  fun_induction takeBytes? n text generalizing piece with
  | case1 text =>
    obtain rfl := Option.some.inj h
    exact ⟨text, rfl, rfl⟩
  | case2 => cases h
  | case3 n c text hle ih =>
    obtain ⟨front, hfront, rfl⟩ := Option.map_eq_some_iff.mp h
    obtain ⟨after, rfl, hsize⟩ := ih hfront
    refine ⟨after, rfl, ?_⟩
    rw [byteSize_cons]
    omega
  | case4 => cases h

/-- A slice is a connected piece of the text at its place. -/
theorem slice?_eq_some_iff {start stop : Nat} {text piece : Text} :
    slice? start stop text = some piece ↔
      ∃ before after, text = before ++ piece ++ after ∧ start = before.byteSize ∧
        stop = before.byteSize + piece.byteSize := by
  rw [slice?, Option.ite_none_right_eq_some, Option.bind_eq_bind, Option.bind_eq_some_iff]
  constructor
  · rintro ⟨hle, rest, hdrop, htake⟩
    obtain ⟨before, rfl, rfl⟩ := exists_of_dropBytes? hdrop
    obtain ⟨after, rfl, hsize⟩ := exists_of_takeBytes? htake
    exact ⟨before, after, (List.append_assoc before piece after).symm, rfl, by omega⟩
  · rintro ⟨before, after, rfl, rfl, rfl⟩
    refine ⟨Nat.le_add_right _ _, piece ++ after, ?_, ?_⟩
    · rw [List.append_assoc, dropBytes?_append]
    · rw [Nat.add_sub_cancel_left, takeBytes?_append]

/-! ## Offsets of a mark -/

/-- The mark stands at the byte offset. -/
def StandsAt (mark text : Text) (offset : Nat) : Prop :=
  slice? offset (offset + mark.byteSize) text = some mark

instance (mark text : Text) (offset : Nat) : Decidable (StandsAt mark text offset) :=
  inferInstanceAs (Decidable (slice? offset (offset + mark.byteSize) text = some mark))

/-- A mark stands where the text before it ends. -/
theorem standsAt_iff {mark text : Text} {offset : Nat} :
    StandsAt mark text offset ↔ ∃ before after, text = before ++ mark ++ after ∧
      offset = before.byteSize := by
  rw [StandsAt, slice?_eq_some_iff]
  constructor
  · rintro ⟨before, after, htext, hoffset, -⟩
    exact ⟨before, after, htext, hoffset⟩
  · rintro ⟨before, after, htext, rfl⟩
    exact ⟨before, after, htext, rfl, rfl⟩

/-- Of two fronts of a text, the one with fewer bytes is a front of the other. -/
theorem isPrefix_of_byteSize_le {left right text : Text} (hleft : left <+: text)
    (hright : right <+: text) (hsize : left.byteSize ≤ right.byteSize) : left <+: right := by
  rcases List.prefix_or_prefix_of_prefix hleft hright with h | ⟨tail, rfl⟩
  · exact h
  · rw [byteSize_append] at hsize
    have hlength := length_le_byteSize tail
    have htail : tail = [] := List.eq_nil_of_length_eq_zero (by omega)
    rw [htail, List.append_nil]

/-- From the end of a front on, a mark stands where it stands in the rest. -/
theorem standsAt_append_iff {mark before text : Text} {offset : Nat}
    (hle : before.byteSize ≤ offset) :
    StandsAt mark (before ++ text) offset ↔
      ∃ front back, text = front ++ mark ++ back ∧ offset = before.byteSize + front.byteSize := by
  rw [standsAt_iff]
  constructor
  · rintro ⟨whole, back, htext, rfl⟩
    have hwhole : whole <+: before ++ text := by
      rw [htext, List.append_assoc]
      exact List.prefix_append _ _
    obtain ⟨front, rfl⟩ := isPrefix_of_byteSize_le (List.prefix_append before text) hwhole hle
    rw [List.append_assoc, List.append_assoc, List.append_cancel_left_eq,
      ← List.append_assoc] at htext
    exact ⟨front, back, htext, byteSize_append before front⟩
  · rintro ⟨front, back, rfl, rfl⟩
    refine ⟨before ++ front, back, ?_, (byteSize_append before front).symm⟩
    simp only [List.append_assoc]

/-- The first mark behind a front is the one at which the rest is cut. -/
theorem isLeast_of_cut {mark text front rest : Text} (h : cut? mark text = some (front, rest))
    (before : Text) :
    IsLeast {offset | before.byteSize ≤ offset ∧ StandsAt mark (before ++ text) offset}
      (before.byteSize + front.byteSize) := by
  constructor
  · refine ⟨Nat.le_add_right _ _, ?_⟩
    rw [standsAt_append_iff (Nat.le_add_right _ _)]
    exact ⟨front, rest, eq_of_cut?_eq_some h, rfl⟩
  · rintro offset ⟨hle, hstands⟩
    obtain ⟨other, back, htext, rfl⟩ := (standsAt_append_iff hle).mp hstands
    obtain ⟨tail, rfl⟩ := isPrefix_of_cut?_eq_some h htext
    rw [byteSize_append]
    omega

/-- A mark at which the rest is not cut stands nowhere behind the front. -/
theorem not_standsAt_of_cut {mark text : Text} (h : cut? mark text = none) {before : Text}
    {offset : Nat} (hle : before.byteSize ≤ offset) : ¬StandsAt mark (before ++ text) offset := by
  rw [standsAt_append_iff hle]
  rintro ⟨front, back, rfl, -⟩
  exact cut?_eq_none_iff.mp h (List.infix_append front mark back)

end ComponentFile.Text
