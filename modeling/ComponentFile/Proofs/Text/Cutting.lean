import ComponentFile.Text.Blank
import Mathlib.Data.List.Infix

/-!
# Cutting text at marks

A cut hands back the pieces of a text, so the pieces with the mark between them are the text again.
The place of the cut is fixed by characters alone when the first character of the mark does not
stand before it.
-/

namespace ComponentFile.Text

/-- Every character takes a byte at least. -/
theorem length_le_byteSize (text : Text) : text.length ≤ text.byteSize := by
  induction text with
  | nil => exact Nat.le_refl _
  | cons c text ih =>
    have hsize := c.utf8Size_pos
    rw [List.length_cons, byteSize_cons]
    omega

/-- Putting a mark in front of a text and taking it off again gives the text. -/
@[simp] theorem after?_append (mark rest : Text) : after? mark (mark ++ rest) = some rest :=
  after?_eq_some_iff.mpr rfl

/-- A text without the first character of the mark before the mark is cut at that mark. -/
theorem cut?_of_not_mem {m : Char} {mark before rest : Text} (h : m ∉ before) :
    cut? (m :: mark) (before ++ m :: mark ++ rest) = some (before, rest) := by
  induction before with
  | nil => simp [cut?, after?]
  | cons c before ih =>
    have hne : m ≠ c := fun he => h (he ▸ List.mem_cons_self)
    have htail := ih fun hm => h (List.mem_cons_of_mem _ hm)
    simp only [List.cons_append, List.append_assoc] at htail ⊢
    rw [cut?, after?, if_neg hne]
    simp only [htail, Option.map_some]

/-- A text without a character is not cut at it. -/
theorem cut?_singleton_of_not_mem {m : Char} {text : Text} (h : m ∉ text) :
    cut? [m] text = none := by
  induction text with
  | nil => rfl
  | cons c text ih =>
    rw [List.mem_cons, not_or] at h
    rw [cut?, after?, if_neg h.1, ih h.2]
    rfl

/-- The two pieces of a cut at the last mark, with the mark between them, are the text. -/
theorem eq_of_cutLast?_eq_some {mark text before rest : Text}
    (h : cutLast? mark text = some (before, rest)) : text = before ++ mark ++ rest := by
  induction text generalizing before with
  | nil =>
    simp only [cutLast?, Option.map_eq_some_iff, Prod.mk.injEq] at h
    obtain ⟨r, hr, rfl, rfl⟩ := h
    simpa only [List.nil_append] using after?_eq_some_iff.mp hr
  | cons c text ih =>
    rw [cutLast?] at h
    split at h
    · next b r hr =>
      simp only [Option.some.injEq, Prod.mk.injEq] at h
      obtain ⟨rfl, rfl⟩ := h
      simp only [ih hr, List.cons_append]
    · simp only [Option.map_eq_some_iff, Prod.mk.injEq] at h
      obtain ⟨r, hr, rfl, rfl⟩ := h
      simpa only [List.nil_append] using after?_eq_some_iff.mp hr

/-- A single character is not cut from a text without it. -/
theorem cutLast?_eq_none {c : Char} {text : Text} (h : c ∉ text) : cutLast? [c] text = none := by
  induction text with
  | nil => rfl
  | cons d text ih =>
    have hne : c ≠ d := fun he => h (he ▸ List.mem_cons_self)
    rw [cutLast?, ih fun hm => h (List.mem_cons_of_mem _ hm)]
    simp only [after?, if_neg hne, Option.map_none]

/-- A text without the character after it is cut at that character. -/
theorem cutLast?_of_not_mem {c : Char} {before rest : Text} (h : c ∉ rest) :
    cutLast? [c] (before ++ c :: rest) = some (before, rest) := by
  induction before with
  | nil =>
    simp only [List.nil_append, cutLast?, cutLast?_eq_none h, after?, if_true, Option.map_some]
  | cons d before ih => rw [List.cons_append, cutLast?, ih]

/-- The last place of a character is one place. -/
theorem eq_of_append_cons_eq {c : Char} {front back before after : Text}
    (h : front ++ c :: back = before ++ c :: after) (hback : c ∉ back) (hafter : c ∉ after) :
    front = before ∧ back = after := by
  have hcut : cutLast? [c] (front ++ c :: back) = some (front, back) := cutLast?_of_not_mem hback
  rw [h, cutLast?_of_not_mem hafter] at hcut
  exact (Prod.mk.inj (Option.some.inj hcut)).imp Eq.symm Eq.symm

/-- A text is never cut into no pieces. -/
theorem piecesFrom_ne_nil (mark : Text) (skip : Nat) (text : Text) :
    piecesFrom mark skip text ≠ [] := by
  fun_induction piecesFrom mark skip text with
  | case1 => exact List.cons_ne_nil _ _
  | case2 _ _ _ ih => exact ih
  | case3 => exact List.cons_ne_nil _ _
  | case4 => exact List.cons_ne_nil _ _
  | case5 => exact List.cons_ne_nil _ _

/-- The pieces with the mark between neighbours are what was not skipped. -/
private theorem join_piecesFrom {mark : Text} (hmark : mark ≠ []) (skip : Nat) (text : Text) :
    join mark (piecesFrom mark skip text) = text.drop skip := by
  fun_induction piecesFrom mark skip text with
  | case1 => simp only [join, List.drop_nil]
  | case2 skip c text ih => simpa only [List.drop_succ_cons] using ih
  | case3 c text hstart ih =>
    obtain ⟨rest, hrest⟩ := Option.isSome_iff_exists.mp hstart
    obtain ⟨m, tail, rfl⟩ := List.exists_cons_of_ne_nil hmark
    have htext := after?_eq_some_iff.mp hrest
    obtain ⟨piece, pieces, hp⟩ :=
      List.exists_cons_of_ne_nil (piecesFrom_ne_nil (m :: tail) ((m :: tail).length - 1) text)
    have hskip : text.drop ((m :: tail).length - 1) = rest := by
      rw [(List.cons.inj htext).2]
      exact List.drop_left
    rw [hskip, hp] at ih
    rw [hp, join, List.nil_append, ih, List.drop_zero, htext]
    exact fun h => nomatch h
  | case4 c text _ hnil => exact absurd hnil (piecesFrom_ne_nil mark 0 text)
  | case5 c text _ piece pieces hp ih =>
    rw [hp, List.drop_zero] at ih
    rw [List.drop_zero, ← ih]
    cases pieces with
    | nil => rfl
    | cons other pieces => rfl

/-- The pieces of a text with the mark between neighbours are the text. -/
theorem join_pieces {mark : Text} (hmark : mark ≠ []) (text : Text) :
    join mark (pieces mark text) = text :=
  join_piecesFrom hmark 0 text

/-- A character of two texts put together is in the second one or in the first one. -/
theorem cases_of_append_eq_append_cons {front back before after : Text} {c : Char}
    (h : front ++ back = before ++ c :: after) :
    (∃ piece, before = front ++ piece ∧ back = piece ++ c :: after) ∨
      ∃ piece, front = before ++ c :: piece ∧ after = piece ++ back := by
  rcases List.append_eq_append_iff.mp h with ⟨piece, hbefore, hback⟩ | ⟨piece, hfront, hafter⟩
  · exact .inl ⟨piece, hbefore, hback⟩
  · cases piece with
    | nil => exact .inl ⟨[], by rw [hfront, List.append_nil, List.append_nil], hafter.symm⟩
    | cons d piece =>
      obtain ⟨rfl, rfl⟩ := List.cons.inj hafter
      exact .inr ⟨piece, hfront, rfl⟩

/-- A text is part of every text that joins it with others. -/
theorem subset_join {separator text : Text} {texts : List Text} (h : text ∈ texts) :
    text ⊆ join separator texts := by
  induction texts with
  | nil => cases h
  | cons first texts ih =>
    cases texts with
    | nil => exact List.mem_singleton.mp h ▸ List.Subset.refl _
    | cons second texts =>
      rcases List.mem_cons.mp h with rfl | h
      · exact fun c hc => List.mem_append_left _ (List.mem_append_left _ hc)
      · exact fun c hc => List.mem_append_right _ (ih h hc)

/-- Trimming at the front takes off a run of blanks. -/
theorem trimStart_isSuffix (text : Text) : text.trimStart <:+ text := List.dropWhile_suffix isBlank

/-- Trimming at the end takes off a run of blanks. -/
theorem trimEnd_isPrefix (text : Text) : text.trimEnd <+: text := by
  rw [← List.reverse_suffix, trimEnd, List.reverse_reverse]
  exact List.dropWhile_suffix isBlank

/-- A trimmed text is a connected piece of the text. -/
theorem trim_isInfix (text : Text) : text.trim <:+: text :=
  (trimEnd_isPrefix _).isInfix.trans (trimStart_isSuffix text).isInfix

/-- A run ends at once where the first character does not belong to it. -/
theorem takeWhile_of_head {p : Char → Bool} {text : Text} (h : ∀ c ∈ text.head?, p c = false) :
    text.takeWhile p = [] := by
  cases text with
  | nil => rfl
  | cons c rest => rw [List.takeWhile_cons_of_neg (by simp [h c rfl])]

/-- Nothing is dropped where the first character is kept. -/
theorem dropWhile_of_head {p : Char → Bool} {text : Text} (h : ∀ c ∈ text.head?, p c = false) :
    text.dropWhile p = text := by
  cases text with
  | nil => rfl
  | cons c rest => rw [List.dropWhile_cons_of_neg (by simp [h c rfl])]

/-- A text is cut in one way only where a run ends. -/
theorem append_inj_of_run {p : Char → Bool} {run rest run' rest' : Text}
    (hrun : ∀ c ∈ run, p c = true) (hrest : ∀ c ∈ rest.head?, p c = false)
    (hrun' : ∀ c ∈ run', p c = true) (hrest' : ∀ c ∈ rest'.head?, p c = false)
    (h : run ++ rest = run' ++ rest') : run = run' ∧ rest = rest' := by
  have htake := congrArg (List.takeWhile p) h
  have hdrop := congrArg (List.dropWhile p) h
  rw [List.takeWhile_append_of_pos hrun, List.takeWhile_append_of_pos hrun',
    takeWhile_of_head hrest, takeWhile_of_head hrest', List.append_nil, List.append_nil] at htake
  rw [List.dropWhile_append_of_pos hrun, List.dropWhile_append_of_pos hrun',
    dropWhile_of_head hrest, dropWhile_of_head hrest'] at hdrop
  exact ⟨htake, hdrop⟩

end ComponentFile.Text
