import ComponentFile.Proofs.Text.Cutting
import Mathlib.Algebra.GroupWithZero.Nat
import Mathlib.Data.List.Infix

/-!
# Marks and lines

A mark that lacks a character lies on one side of each place where the character stands, so its
occurrences add up over the two sides. In particular a mark without a line feed lies within a line,
and a mark at the start of a line is the first one as soon as no earlier line holds one.
-/

namespace ComponentFile.Text

/-- A text starts with a mark when something follows the mark. -/
theorem startsWith_iff {mark text : Text} : startsWith mark text = true ↔ mark <+: text := by
  rw [startsWith, Option.isSome_iff_exists]
  exact exists_congr fun rest => after?_eq_some_iff.trans eq_comm

/-- Nothing follows a mark that the text does not start with. -/
theorem after?_eq_none_iff {mark text : Text} : after? mark text = none ↔ ¬mark <+: text := by
  rw [← startsWith_iff, startsWith, Bool.not_eq_true, Option.isSome_eq_false_iff,
    Option.isNone_iff_eq_none]

/-- A text is cut at a mark exactly when it holds the mark. -/
theorem cut?_eq_none_iff {mark text : Text} : cut? mark text = none ↔ ¬mark <:+: text := by
  induction text with
  | nil =>
    rw [cut?, Option.map_eq_none_iff, after?_eq_none_iff, List.prefix_nil, List.infix_nil]
  | cons c text ih =>
    rw [List.infix_cons_iff, not_or, ← ih, ← after?_eq_none_iff, cut?]
    cases after? mark (c :: text) with
    | none => simp only [Option.map_eq_none_iff, true_and]
    | some rest => simp only [reduceCtorEq, false_and]

/-- A text is cut at a mark that does not start before the end of the part in front of it. -/
theorem cut?_of_not_infix {m : Char} {mark before : Text} (rest : Text)
    (h : ¬(m :: mark) <:+: before ++ (m :: mark).dropLast) :
    cut? (m :: mark) (before ++ (m :: mark) ++ rest) = some (before, rest) := by
  induction before with
  | nil => simp only [List.nil_append, List.cons_append, cut?, after?, if_true, after?_append]
  | cons c before ih =>
    rw [List.cons_append, List.infix_cons_iff, not_or] at h
    -- The mark would have to start at `c` and so lie before its own last character.
    have hnone : after? (m :: mark) (c :: (before ++ (m :: mark) ++ rest)) = none := by
      rw [after?_eq_none_iff]
      intro hstart
      refine h.1 (List.prefix_of_prefix_length_le hstart ?_ ?_)
      · rw [List.append_assoc]
        exact (List.cons_prefix_cons.mpr ⟨rfl, (List.prefix_append_right_inj before).mpr
          ((List.dropLast_prefix _).trans (List.prefix_append _ _))⟩)
      · simp only [List.length_cons, List.length_append, List.length_dropLast]
        omega
    rw [List.cons_append, List.cons_append, cut?, hnone, ih h.2]
    rfl

/-- A mark does not start in a text that it is cut from. -/
theorem after?_of_not_infix {m : Char} {mark before : Text} (rest : Text) (hne : before ≠ [])
    (h : ¬(m :: mark) <:+: before ++ (m :: mark).dropLast) :
    after? (m :: mark) (before ++ (m :: mark) ++ rest) = none := by
  have hcut := cut?_of_not_infix rest h
  obtain ⟨c, tail, rfl⟩ := List.exists_cons_of_ne_nil hne
  rw [List.cons_append, List.cons_append, cut?] at hcut
  split at hcut
  · cases hcut
  · next hnone => exact hnone

/-- A mark whose first character stands in it once does not start in a text without the mark, even
when the mark follows. -/
theorem not_isInfix_append_dropLast {m : Char} {mark before : Text} (hm : m ∉ mark)
    (h : ¬(m :: mark) <:+: before) : ¬(m :: mark) <:+: before ++ (m :: mark).dropLast := by
  induction before with
  | nil =>
    intro hpart
    have hlength := hpart.length_le
    rw [List.nil_append, List.length_dropLast, List.length_cons] at hlength
    omega
  | cons c before ih =>
    rw [List.infix_cons_iff, not_or] at h
    rw [List.cons_append, List.infix_cons_iff, not_or]
    refine ⟨fun hstart => ?_, ih h.2⟩
    rw [← List.cons_append] at hstart
    rcases List.prefix_or_prefix_of_prefix hstart (List.prefix_append _ _) with
      hinside | ⟨tail, htail⟩
    · exact h.1 hinside
    · -- the mark would go on with its own first character
      rw [← htail, List.prefix_append_right_inj, htail] at hstart
      obtain ⟨-, hmark⟩ := List.cons.inj htail
      cases tail with
      | nil =>
        rw [List.append_nil] at htail
        exact h.1 (htail ▸ List.prefix_refl _)
      | cons d tail =>
        have hfirst := hstart.trans (List.dropLast_prefix _)
        obtain ⟨rfl, -⟩ := List.cons_prefix_cons.mp hfirst
        exact hm (hmark ▸ List.mem_append_right _ List.mem_cons_self)

/-- The mark does not start before the place at which a text is cut. -/
theorem not_isInfix_of_cut?_eq_some {m : Char} {mark text before rest : Text}
    (h : cut? (m :: mark) text = some (before, rest)) :
    ¬(m :: mark) <:+: before ++ (m :: mark).dropLast := by
  induction text generalizing before with
  | nil => cases h
  | cons c text ih =>
    rw [cut?] at h
    split at h
    · obtain ⟨rfl, rfl⟩ := Prod.mk.inj (Option.some.inj h)
      intro hpart
      have hlength := hpart.length_le
      rw [List.nil_append, List.length_dropLast, List.length_cons] at hlength
      omega
    · next hnone =>
      obtain ⟨⟨front, back⟩, hcut, he⟩ := Option.map_eq_some_iff.mp h
      obtain ⟨rfl, rfl⟩ := Prod.mk.inj he
      rw [List.cons_append, List.infix_cons_iff, not_or]
      refine ⟨fun hstart => after?_eq_none_iff.mp hnone (hstart.trans ?_), ih hcut⟩
      rw [eq_of_cut?_eq_some hcut, List.append_assoc, List.cons_prefix_cons,
        List.prefix_append_right_inj]
      exact ⟨rfl, (List.dropLast_prefix _).trans (List.prefix_append _ _)⟩

/-- The first mark stays the first one whatever follows the text. -/
theorem cut?_append_of_eq_some {m : Char} {mark text before rest : Text}
    (h : cut? (m :: mark) text = some (before, rest)) (after : Text) :
    cut? (m :: mark) (text ++ after) = some (before, rest ++ after) := by
  rw [eq_of_cut?_eq_some h, List.append_assoc]
  exact cut?_of_not_infix (rest ++ after) (not_isInfix_of_cut?_eq_some h)

/-- No mark stands before the place at which a text is cut. -/
theorem isPrefix_of_cut?_eq_some {mark text before rest front back : Text}
    (h : cut? mark text = some (before, rest)) (htext : text = front ++ mark ++ back) :
    before <+: front := by
  induction text generalizing before front with
  | nil =>
    obtain ⟨hfront, -⟩ := List.append_eq_nil_iff.mp htext.symm
    obtain ⟨r, -, he⟩ := Option.map_eq_some_iff.mp h
    rw [← (Prod.mk.inj he).1]
    exact List.nil_prefix
  | cons c text ih =>
    rw [cut?] at h
    split at h
    · obtain ⟨rfl, -⟩ := Prod.mk.inj (Option.some.inj h)
      exact List.nil_prefix
    · next hnone =>
      obtain ⟨⟨first, last⟩, hcut, he⟩ := Option.map_eq_some_iff.mp h
      obtain ⟨rfl, rfl⟩ := Prod.mk.inj he
      cases front with
      | nil =>
        rw [List.nil_append] at htext
        rw [after?_eq_none_iff, htext] at hnone
        exact absurd (List.prefix_append mark back) hnone
      | cons d front =>
        obtain ⟨rfl, hrest⟩ := List.cons.inj htext
        exact List.cons_prefix_cons.mpr ⟨rfl, ih hcut hrest⟩

/-- A text without the mark has no last one. -/
theorem cutLast?_eq_none_iff {mark text : Text} : cutLast? mark text = none ↔ ¬mark <:+: text := by
  induction text with
  | nil =>
    rw [cutLast?, Option.map_eq_none_iff, after?_eq_none_iff, List.prefix_nil, List.infix_nil]
  | cons c text ih =>
    rw [List.infix_cons_iff, not_or, ← ih, ← after?_eq_none_iff, cutLast?]
    cases cutLast? mark text with
    | none => simp only [Option.map_eq_none_iff, and_true]
    | some parts => simp only [reduceCtorEq, and_false]

/-- A text is cut at a mark after which no other one starts. -/
theorem cutLast?_of_not_infix {m : Char} {mark rest : Text} (before : Text)
    (h : ¬(m :: mark) <:+: mark ++ rest) :
    cutLast? (m :: mark) (before ++ (m :: mark) ++ rest) = some (before, rest) := by
  induction before with
  | nil =>
    rw [List.nil_append, List.cons_append, cutLast?, cutLast?_eq_none_iff.mpr h]
    simp only [after?, if_true, after?_append, Option.map_some]
  | cons c before ih => rw [List.cons_append, List.cons_append, cutLast?, ih]

/-- No mark is left in the text behind the last one. -/
theorem not_isInfix_of_cutLast?_eq_some {m : Char} {mark text before rest : Text}
    (h : cutLast? (m :: mark) text = some (before, rest)) : ¬(m :: mark) <:+: rest := by
  induction text generalizing before with
  | nil => cases h
  | cons c text ih =>
    rw [cutLast?] at h
    split at h
    · next front back hcut =>
      obtain ⟨-, rfl⟩ := Prod.mk.inj (Option.some.inj h)
      exact ih hcut
    · next hnone =>
      obtain ⟨back, hafter, he⟩ := Option.map_eq_some_iff.mp h
      obtain ⟨-, rfl⟩ := Prod.mk.inj he
      have htail : text = mark ++ back := (List.cons.inj (after?_eq_some_iff.mp hafter)).2
      rw [cutLast?_eq_none_iff, htail] at hnone
      exact fun hmark => hnone (hmark.trans (List.suffix_append _ _).isInfix)

/-! ## Marks around a character -/

section

variable {c : Char} {mark : Text} (hmark : c ∉ mark)

include hmark

/-- A mark at the start of a text ends before the first character that it lacks. -/
theorem isPrefix_append_cons_iff (left right : Text) :
    mark <+: left ++ c :: right ↔ mark <+: left := by
  refine ⟨fun h => ?_, fun h => h.trans (List.prefix_append _ _)⟩
  rcases List.prefix_or_prefix_of_prefix h (List.prefix_append left (c :: right)) with h | h
  · exact h
  -- Otherwise the mark reaches past `left` and holds the character.
  obtain ⟨tail, rfl⟩ := h
  rw [List.prefix_append_right_inj] at h
  cases tail with
  | nil => rw [List.append_nil]
  | cons d tail =>
    rw [(List.cons_prefix_cons.mp h).1] at hmark
    exact absurd (List.mem_append_right left List.mem_cons_self) hmark

/-- A mark occurs on one side of a character that it lacks. -/
theorem isInfix_append_cons_iff (left right : Text) :
    mark <:+: left ++ c :: right ↔ mark <:+: left ∨ mark <:+: right := by
  induction left with
  | nil =>
    rw [List.nil_append, List.infix_cons_iff, ← List.nil_append (c :: right),
      isPrefix_append_cons_iff hmark, List.prefix_nil, List.infix_nil]
  | cons d left ih =>
    rw [List.cons_append, List.infix_cons_iff, ih, List.infix_cons_iff, ← List.cons_append,
      isPrefix_append_cons_iff hmark, or_assoc]

/-- The occurrences of a mark add up on both sides of a character that it lacks. -/
theorem occurrences_append_cons (hne : mark ≠ []) (left right : Text) :
    occurrences mark (left ++ c :: right) = occurrences mark left + occurrences mark right := by
  have hstart (text : Text) : startsWith mark (text ++ c :: right) = startsWith mark text := by
    rw [Bool.eq_iff_iff, startsWith_iff, startsWith_iff, isPrefix_append_cons_iff hmark]
  induction left with
  | nil =>
    have hnil : startsWith mark [] = false := by
      rw [← Bool.not_eq_true, startsWith_iff, List.prefix_nil]
      exact hne
    have hline := hstart []
    rw [List.nil_append, hnil] at hline
    simp only [List.nil_append, occurrences, hline, Bool.false_eq_true, if_false]
  | cons d left ih =>
    have hline := hstart (d :: left)
    rw [List.cons_append] at hline ⊢
    rw [occurrences, hline, ih, occurrences, Nat.add_assoc]

end

/-- A text without the mark, up to a character that the mark lacks, is passed over. -/
theorem cut?_append_cons {c m : Char} {mark left : Text} (hmark : c ∉ m :: mark)
    (h : ¬(m :: mark) <:+: left) (right : Text) :
    cut? (m :: mark) (left ++ c :: right) =
      (cut? (m :: mark) right).map fun (before, rest) => (left ++ c :: before, rest) := by
  induction left with
  | nil =>
    have hne : m ≠ c := fun he => hmark (he ▸ List.mem_cons_self)
    rw [List.nil_append, cut?, after?, if_neg hne]
    rfl
  | cons d left ih =>
    rw [List.infix_cons_iff, not_or] at h
    have hnone : after? (m :: mark) (d :: (left ++ c :: right)) = none := by
      rw [after?_eq_none_iff, ← List.cons_append, isPrefix_append_cons_iff hmark]
      exact h.1
    rw [List.cons_append, cut?, hnone, ih h.2, Option.map_map]
    rfl

/-- A mark occurs no time in a text that does not hold it. -/
theorem occurrences_eq_zero {mark text : Text} (h : ¬mark <:+: text) :
    occurrences mark text = 0 := by
  induction text with
  | nil => rfl
  | cons c text ih =>
    rw [List.infix_cons_iff, not_or, ← startsWith_iff] at h
    rw [occurrences, if_neg h.1, ih h.2]

/-- The text is empty or its last line has ended. -/
def EndsLine (text : Text) : Prop := ∀ c ∈ text.getLast?, c = '\n'

/-- A text in which lines have ended is a text before a line feed. -/
theorem EndsLine.eq_nil_or {text : Text} (h : EndsLine text) :
    text = [] ∨ ∃ front, text = front ++ ['\n'] := by
  rcases List.eq_nil_or_concat text with rfl | ⟨front, c, rfl⟩
  · exact .inl rfl
  · rw [List.concat_eq_append] at h ⊢
    exact .inr ⟨front, by rw [h c (List.getLast?_concat)]⟩

/-- A mark at the start of a line is the first one when no earlier line holds one. -/
theorem cut?_of_endsLine {mark before : Text} (rest : Text) (hne : mark ≠ []) (hmark : '\n' ∉ mark)
    (hline : EndsLine before) (h : ¬mark <:+: before) :
    cut? mark (before ++ mark ++ rest) = some (before, rest) := by
  obtain ⟨m, tail, rfl⟩ := List.exists_cons_of_ne_nil hne
  have hshort : ¬(m :: tail) <:+: (m :: tail).dropLast := by
    intro hpart
    have hlength := hpart.length_le
    rw [List.length_dropLast, List.length_cons] at hlength
    omega
  apply cut?_of_not_infix
  rcases hline.eq_nil_or with rfl | ⟨front, rfl⟩
  · exact hshort
  · rw [isInfix_append_cons_iff hmark, not_or] at h
    rw [List.append_assoc, List.singleton_append, isInfix_append_cons_iff hmark, not_or]
    exact ⟨h.1, hshort⟩

/-- A mark at the end of a line is the last one when no later line holds one. -/
theorem cutLast?_of_line {mark rest : Text} (before : Text) (hne : mark ≠ []) (hmark : '\n' ∉ mark)
    (h : ¬mark <:+: rest) :
    cutLast? mark (before ++ mark ++ '\n' :: rest) = some (before, '\n' :: rest) := by
  obtain ⟨m, tail, rfl⟩ := List.exists_cons_of_ne_nil hne
  apply cutLast?_of_not_infix
  rw [isInfix_append_cons_iff hmark, not_or]
  refine ⟨fun hpart => ?_, h⟩
  have hlength := hpart.length_le
  rw [List.length_cons] at hlength
  omega

/-! ## Pieces -/

/-- The first piece starts the text and no piece holds the mark. -/
private theorem not_isInfix_of_mem_piecesFrom {mark : Text} (hmark : mark ≠ []) (skip : Nat)
    (text : Text) :
    ∃ first others, piecesFrom mark skip text = first :: others ∧ first <+: text.drop skip ∧
      ∀ piece ∈ first :: others, ¬mark <:+: piece := by
  have hempty (piece : Text) (hm : piece ∈ [[]]) : ¬mark <:+: piece := by
    rw [List.mem_singleton.mp hm, List.infix_nil]
    exact hmark
  fun_induction piecesFrom mark skip text with
  | case1 => exact ⟨[], [], rfl, List.nil_prefix, hempty⟩
  | case2 skip _ text ih => exact ih
  | case3 c text _ ih =>
    obtain ⟨first, others, hpieces, -, hfree⟩ := ih
    rw [hpieces]
    refine ⟨[], _, rfl, List.nil_prefix, fun piece hm => ?_⟩
    rcases List.mem_cons.mp hm with rfl | hm
    · exact hempty [] List.mem_cons_self
    · exact hfree piece hm
  | case4 c text _ hnil ih =>
    obtain ⟨first, others, hpieces, -⟩ := ih
    rw [hpieces] at hnil
    cases hnil
  | case5 c text hstart first others hpieces ih =>
    obtain ⟨_, _, he, hstarts, hfree⟩ := ih
    rw [hpieces] at he
    obtain ⟨rfl, rfl⟩ := List.cons.inj he
    refine ⟨c :: first, others, rfl, List.cons_prefix_cons.mpr ⟨rfl, hstarts⟩, fun piece hm => ?_⟩
    rcases List.mem_cons.mp hm with rfl | hm
    · rw [List.infix_cons_iff, not_or]
      refine ⟨fun hhere => hstart ?_, hfree first List.mem_cons_self⟩
      rw [startsWith_iff]
      exact hhere.trans (List.cons_prefix_cons.mpr ⟨rfl, hstarts⟩)
    · exact hfree piece (List.mem_cons_of_mem _ hm)

/-- No piece holds the mark. -/
theorem not_isInfix_of_mem_pieces {mark text piece : Text} (hmark : mark ≠ [])
    (h : piece ∈ pieces mark text) :
    ¬mark <:+: piece := by
  obtain ⟨first, others, hpieces, -, hfree⟩ := not_isInfix_of_mem_piecesFrom hmark 0 text
  rw [pieces, hpieces] at h
  exact hfree piece h

/-! ## Lines -/

/-- The lines before a line feed are followed by those after it. -/
theorem pieces_append_line (left right : Text) :
    pieces ['\n'] (left ++ '\n' :: right) = pieces ['\n'] left ++ pieces ['\n'] right := by
  induction left with
  | nil => rfl
  | cons c left ih =>
    have hstart (text : Text) : startsWith ['\n'] (c :: text) = decide ('\n' = c) := by
      by_cases hc : '\n' = c <;> simp only [startsWith, after?, hc, if_true, if_false, decide_true,
        decide_false, Option.isSome_some, Option.isSome_none]
    simp only [pieces] at ih
    simp only [pieces, List.cons_append, piecesFrom, hstart, List.length_singleton, ih]
    split
    · rfl
    · obtain ⟨line, others, hlines⟩ := List.exists_cons_of_ne_nil (piecesFrom_ne_nil ['\n'] 0 left)
      rw [hlines]
      rfl

/-- Texts joined by line feeds take their own bytes and one for each line feed. -/
theorem byteSize_join_line {parts : List Text} (hne : parts ≠ []) :
    (parts.map fun line => line.byteSize + 1).sum = (join ['\n'] parts).byteSize + 1 := by
  induction parts with
  | nil => exact absurd rfl hne
  | cons line parts ih =>
    cases parts with
    | nil => rfl
    | cons next parts =>
      have hjoin : join ['\n'] (line :: next :: parts) =
          line ++ ['\n'] ++ join ['\n'] (next :: parts) := rfl
      have hsize : byteSize ['\n'] = 1 := by decide
      rw [List.map_cons, List.sum_cons, ih (List.cons_ne_nil _ _), hjoin, byteSize_append,
        byteSize_append, hsize]
      omega

/-- The lines of a text take its bytes, and one more for a line feed after the last line. -/
theorem sum_pieces_line (text : Text) :
    ((pieces ['\n'] text).map fun line => line.byteSize + 1).sum = text.byteSize + 1 := by
  have hne : pieces ['\n'] text ≠ [] := piecesFrom_ne_nil ['\n'] 0 text
  rw [byteSize_join_line hne, join_pieces (List.cons_ne_nil _ _)]

end ComponentFile.Text
