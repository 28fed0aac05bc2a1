import ComponentFile.Proofs.Text.Cutting
import Mathlib.Data.List.TakeWhile

/-!
# Trimming

Trimming takes off the longest runs of blanks at the two ends. Where a text is put together from
parts, the trimmed text is found from the parts: blank parts at the ends vanish, and the first part
that is not blank stops the run.
-/

namespace ComponentFile.Text

theorem toNat_of_isAlpha {c : Char} (h : c.isAlpha = true) :
    65 ≤ c.toNat ∧ c.toNat ≤ 90 ∨ 97 ≤ c.toNat ∧ c.toNat ≤ 122 := by
  have hletter : (decide (65 ≤ c.val ∧ c.val ≤ 90) ||
      (decide (97 ≤ c.val) && decide (c.val ≤ 122))) = true := h
  simp only [Bool.or_eq_true, Bool.and_eq_true, decide_eq_true_eq,
    UInt32.le_iff_toNat_le] at hletter
  exact hletter

theorem toNat_of_isDigit {c : Char} (h : c.isDigit = true) : 48 ≤ c.toNat ∧ c.toNat ≤ 57 := by
  have hdigit : (decide (48 ≤ c.val) && decide (c.val ≤ 57)) = true := h
  simp only [Bool.and_eq_true, decide_eq_true_eq, UInt32.le_iff_toNat_le] at hdigit
  exact hdigit

/-- The visible characters of ASCII are not blank. -/
theorem isBlank_of_toNat {c : Char} (hle : 33 ≤ c.toNat) (hge : c.toNat ≤ 126) :
    isBlank c = false := by
  cases hblank : isBlank c with
  | false => rfl
  | true =>
    simp only [isBlank, inRanges, blankRanges, List.any_cons, List.any_nil, Bool.or_false,
      Bool.or_eq_true, Bool.and_eq_true, decide_eq_true_eq] at hblank
    omega

/-- A text is blank when its first character and the rest are. -/
@[simp] theorem isBlankText_cons (c : Char) (text : Text) :
    isBlankText (c :: text) = (isBlank c && isBlankText text) := List.all_cons

/-- A text is blank when its parts are. -/
@[simp] theorem isBlankText_append (left right : Text) :
    isBlankText (left ++ right) = (isBlankText left && isBlankText right) := List.all_append

/-- Blanks at the front vanish. -/
theorem trimStart_append_of_blank {left : Text} (h : left.isBlankText = true) (right : Text) :
    trimStart (left ++ right) = trimStart right :=
  List.dropWhile_append_of_pos (List.all_eq_true.mp h)

/-- Text after the first character that is not blank stays. -/
theorem trimStart_append {left : Text} (h : left.isBlankText = false) (right : Text) :
    trimStart (left ++ right) = trimStart left ++ right := by
  induction left with
  | nil => cases h
  | cons c left ih =>
    rw [isBlankText_cons] at h
    cases hc : isBlank c with
    | false => simp only [trimStart, List.cons_append, List.dropWhile_cons, hc, Bool.false_eq_true,
        if_false]
    | true =>
      rw [hc, Bool.true_and] at h
      have htail := ih h
      simp only [trimStart, List.cons_append, List.dropWhile_cons, hc, if_true] at htail ⊢
      exact htail

/-- A text and its reverse are blank together. -/
theorem isBlankText_reverse (text : Text) : isBlankText text.reverse = isBlankText text :=
  List.all_reverse

/-- Trimming at the end is trimming the reversed text at the front. -/
theorem trimEnd_eq (text : Text) : trimEnd text = (trimStart text.reverse).reverse := rfl

/-- Blanks at the end vanish. -/
theorem trimEnd_append_of_blank (left : Text) {right : Text} (h : right.isBlankText = true) :
    trimEnd (left ++ right) = trimEnd left := by
  rw [trimEnd_eq, List.reverse_append, trimStart_append_of_blank, trimEnd_eq]
  rwa [isBlankText_reverse]

/-- Text before the last character that is not blank stays. -/
theorem trimEnd_append (left : Text) {right : Text} (h : right.isBlankText = false) :
    trimEnd (left ++ right) = left ++ trimEnd right := by
  rw [← isBlankText_reverse] at h
  rw [trimEnd_eq, List.reverse_append, trimStart_append h, List.reverse_append,
    List.reverse_reverse, trimEnd_eq]

/-- Nothing is left of a blank text. -/
theorem trim_of_blank {text : Text} (h : text.isBlankText = true) : trim text = [] := by
  have hstart := trimStart_append_of_blank h []
  rw [List.append_nil] at hstart
  rw [trim, hstart]
  rfl

/-- A text that stays when trimmed is empty or not blank. -/
theorem isBlankText_of_trim_eq {text : Text} (hne : text ≠ []) (h : text.trim = text) :
    text.isBlankText = false := by
  cases hb : text.isBlankText with
  | false => rfl
  | true => exact absurd (h.symm.trans (trim_of_blank hb)) hne

/-- A text is not blank as soon as one of its characters is not. -/
theorem isBlankText_of_mem {c : Char} {text : Text} (hm : c ∈ text) (hc : isBlank c = false) :
    text.isBlankText = false := by
  rw [isBlankText, List.all_eq_false]
  exact ⟨c, hm, by simp [hc]⟩

/-- Blanks around a text do not matter. -/
theorem trim_pad {left right : Text} (hleft : left.isBlankText = true)
    (hright : right.isBlankText = true) (text : Text) :
    trim (left ++ text ++ right) = trim text := by
  cases hb : text.isBlankText with
  | true =>
    rw [trim_of_blank hb]
    exact trim_of_blank (by simp only [isBlankText_append, hleft, hb, hright, Bool.and_self])
  | false =>
    rw [trim, List.append_assoc, trimStart_append_of_blank hleft, trimStart_append hb,
      trimEnd_append_of_blank _ hright]
    rfl

/-- A blank in front of a text does not matter. -/
theorem trim_cons_of_blank {c : Char} (h : isBlank c = true) (text : Text) :
    trim (c :: text) = trim text := by
  rw [trim, trimStart, List.dropWhile_cons_of_pos h]
  rfl

/-- Blanks after a text do not matter. -/
theorem trim_append_of_blank (text : Text) {right : Text} (h : right.isBlankText = true) :
    trim (text ++ right) = trim text :=
  trim_pad (show isBlankText [] = true from rfl) h text

/-- A text with no blank at its front stays. -/
theorem trimStart_eq_self {text : Text} (h : ∀ c ∈ text.head?, isBlank c = false) :
    trimStart text = text := by
  cases text with
  | nil => rfl
  | cons c rest => exact List.dropWhile_cons_of_neg (by simp [h c rfl])

/-- A text with no blank at its end stays. -/
theorem trimEnd_eq_self {text : Text} (h : ∀ c ∈ text.getLast?, isBlank c = false) :
    trimEnd text = text := by
  rw [trimEnd_eq, trimStart_eq_self, List.reverse_reverse]
  rwa [List.head?_reverse]

/-- A text with no blank at its two ends stays. -/
theorem trim_eq_self {text : Text} (hfirst : ∀ c ∈ text.head?, isBlank c = false)
    (hlast : ∀ c ∈ text.getLast?, isBlank c = false) : trim text = text := by
  rw [trim, trimStart_eq_self hfirst, trimEnd_eq_self hlast]

/-- A character that is not blank stays at the front. -/
theorem mem_trimStart {c : Char} {text : Text} (hm : c ∈ text) (hc : isBlank c = false) :
    c ∈ trimStart text := by
  induction text with
  | nil => exact hm
  | cons d text ih =>
    by_cases hd : isBlank d = true
    · rw [trimStart, List.dropWhile_cons_of_pos hd]
      rcases List.mem_cons.mp hm with rfl | hm
      · rw [hc] at hd
        cases hd
      · exact ih hm
    · rw [trimStart, List.dropWhile_cons_of_neg hd]
      exact hm

/-- A character that is not blank stays when a text is trimmed. -/
theorem mem_trim {c : Char} {text : Text} (hm : c ∈ text) (hc : isBlank c = false) :
    c ∈ trim text := by
  have hstart := mem_trimStart hm hc
  rw [trim, trimEnd_eq, List.mem_reverse]
  exact mem_trimStart (List.mem_reverse.mpr hstart) hc

/-- Nothing is left at the end exactly when the text is blank. -/
theorem trimEnd_eq_nil_iff {text : Text} : trimEnd text = [] ↔ text.isBlankText = true := by
  rw [trimEnd_eq, List.reverse_eq_nil_iff, trimStart, List.dropWhile_eq_nil_iff,
    ← isBlankText_reverse, isBlankText, List.all_eq_true]

/-- The first character of a text that is not blank stays when the end is trimmed. -/
theorem trimEnd_cons {c : Char} {text : Text} (h : isBlankText (c :: text) = false) :
    trimEnd (c :: text) = c :: trimEnd text := by
  by_cases hblank : isBlankText text = true
  · rw [isBlankText_cons, hblank, Bool.and_true] at h
    have hc : trimEnd [c] = [c] := by
      apply trimEnd_eq_self
      intro d hd
      rwa [← Option.some.inj hd]
    rw [trimEnd_eq_nil_iff.mpr hblank, ← List.singleton_append,
      trimEnd_append_of_blank [c] hblank, hc]
  · rw [Bool.not_eq_true] at hblank
    exact trimEnd_append [c] hblank

/-- A text with no blank at its end is kept by trimming what follows it. -/
theorem trimEnd_append_of_getLast {left : Text} (h : ∀ c ∈ left.getLast?, isBlank c = false)
    (right : Text) : trimEnd (left ++ right) = left ++ trimEnd right := by
  cases hb : right.isBlankText with
  | true =>
    rw [trimEnd_append_of_blank left hb, trimEnd_eq_self h, trimEnd_eq_nil_iff.mpr hb,
      List.append_nil]
  | false => exact trimEnd_append left hb

/-- Trimming at the front leaves no blank there. -/
theorem isBlank_head_trimStart (text : Text) : ∀ c ∈ text.trimStart.head?, isBlank c = false := by
  intro c hc
  have hnot := List.head?_dropWhile_not isBlank text
  rw [show text.dropWhile isBlank = text.trimStart from rfl, Option.mem_def.mp hc] at hnot
  exact hnot

/-- A trimmed text has no blank at its front. -/
theorem isBlank_head_trim (text : Text) : ∀ c ∈ text.trim.head?, isBlank c = false := by
  intro c hc
  obtain ⟨rest, hrest⟩ := trimEnd_isPrefix text.trimStart
  refine isBlank_head_trimStart text c ?_
  rw [← hrest, List.head?_append, show text.trimStart.trimEnd.head? = some c from hc]
  rfl

/-- A trimmed text has no blank at its end. -/
theorem isBlank_getLast_trim (text : Text) : ∀ c ∈ text.trim.getLast?, isBlank c = false := by
  intro c hc
  rw [trim, trimEnd_eq, List.getLast?_reverse] at hc
  exact isBlank_head_trimStart _ c hc

/-- A text is its trimmed text with blanks around it. -/
theorem exists_pad (text : Text) :
    ∃ front back, isBlankText front = true ∧ isBlankText back = true ∧
      text = front ++ text.trim ++ back := by
  have hfront (text : Text) : ∃ front, isBlankText front = true ∧ text = front ++ text.trimStart :=
    ⟨text.takeWhile isBlank, List.all_eq_true.mpr fun c hc => List.mem_takeWhile_imp hc,
      List.takeWhile_append_dropWhile.symm⟩
  obtain ⟨front, hblank, hstart⟩ := hfront text
  obtain ⟨back, hblank', hend⟩ := hfront text.trimStart.reverse
  refine ⟨front, back.reverse, hblank, by rwa [isBlankText_reverse], ?_⟩
  have hreverse := congrArg List.reverse hend
  rw [List.reverse_reverse, List.reverse_append, ← trimEnd_eq] at hreverse
  rw [List.append_assoc, trim, ← hreverse, ← hstart]

/-- A text is blank when it is blank after trimming. -/
theorem isBlankText_trim (text : Text) : text.trim.isBlankText = text.isBlankText := by
  cases hb : text.isBlankText with
  | true =>
    rw [trim_of_blank hb]
    rfl
  | false =>
    cases htrim : text.trim with
    | nil =>
      have hstart : text.trimStart.isBlankText = true := trimEnd_eq_nil_iff.mp htrim
      have hfront : isBlankText (text.takeWhile isBlank) = true :=
        List.all_eq_true.mpr fun c hc => List.mem_takeWhile_imp hc
      have hall : isBlankText (text.takeWhile isBlank ++ text.trimStart) = true := by
        rw [isBlankText_append, hfront, hstart, Bool.and_true]
      rw [trimStart, List.takeWhile_append_dropWhile, hb] at hall
      cases hall
    | cons c rest =>
      refine isBlankText_of_mem List.mem_cons_self (isBlank_head_trim text c ?_)
      rw [htrim]
      rfl

end ComponentFile.Text
