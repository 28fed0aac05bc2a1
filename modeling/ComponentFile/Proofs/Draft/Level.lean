import ComponentFile.Proofs.Outline.Fitting
import ComponentFile.Validation.Rules
import Mathlib.Algebra.Order.Group.Multiset

/-!
# Levels of a template with problems

The headers of a template may say too little: a condition may be blank, a loop may name no item.
Such directives are taken out all the same, each with a problem to report. A level is a text of
markup, inserted values, loops and conditionals, together with the problems of all directives in it.
Placeholders are markup here, so the text of a template is a level at every stage of its processing.
-/

namespace ComponentFile.Template

/-! ## Headers -/

/-- What stands between a keyword and the closing braces: nothing, or white space and more, but no
braces. -/
structure HeaderText where
  text : Text
  braceFree : BraceFree text
  isSpace_head : ∀ c ∈ text.head?, isSpace c = true

namespace HeaderText

/-- The token that starts a conditional. -/
def ifToken (header : HeaderText) : Text := ifKeyword ++ header.text ++ closing

/-- The token that starts a loop. -/
def eachToken (header : HeaderText) : Text := eachKeyword ++ header.text ++ closing

/-- The token that starts an arm with a condition. -/
def elseIfToken (header : HeaderText) : Text :=
  elseKeyword ++ ([' ', 'i', 'f'] ++ header.text) ++ closing

/-- The token that starts a further arm. -/
def armToken : Option HeaderText → Text
  | some header => header.elseIfToken
  | none => elseKeyword ++ closing

/-- A blank condition is a problem. -/
def conditionProblems (header : HeaderText) : Multiset DiagnosticKind :=
  if header.text.isBlankText then {.emptyCondition} else 0

/-- The same of the condition of a further arm, if it has one. -/
def armProblems : Option HeaderText → Multiset DiagnosticKind
  | some header => header.conditionProblems
  | none => 0

/-- A loop without an iterable or an item is a problem. -/
def loopProblems (header : HeaderText) : Multiset DiagnosticKind :=
  if (LoopHeader.parse header.text).iterable.isBlankText ||
    (LoopHeader.parse header.text).item.isBlankText then
    {.invalidEachDirective}
  else 0

end HeaderText

/-- A further arm of a conditional: its condition, if it has one, its body and the problems in the
body. -/
structure ArmText where
  condition : Option HeaderText
  body : Text
  problems : Multiset DiagnosticKind

namespace ArmText

/-- The token that starts the arm. -/
def token (arm : ArmText) : Text := HeaderText.armToken arm.condition

/-- The text of the arm. -/
def text (arm : ArmText) : Text := arm.token ++ arm.body

/-- The problem of the condition. -/
def conditionProblems (arm : ArmText) : Multiset DiagnosticKind :=
  HeaderText.armProblems arm.condition

/-- The problem of the condition and those in the body. -/
def allProblems (arm : ArmText) : Multiset DiagnosticKind := arm.conditionProblems + arm.problems

end ArmText

/-! ## Levels -/

/-- The text is a level with these problems. Loops are nested at most `loops` deep in it, and at
most `limit` deep in conditionals. -/
inductive Level (limit : Nat) : Nat → Multiset DiagnosticKind → Text → Prop
  | nil (loops : Nat) : Level limit loops 0 []
  | insert {loops : Nat} {problems : Multiset DiagnosticKind} {text : Text} (insert : Insert)
    (hwell : insert.WellFormed) (hnext : Level limit loops problems text) :
    Level limit loops problems (insert.text ++ text)
  | loop {loops : Nat} {inside outside : Multiset DiagnosticKind} {body text : Text}
    (header : HeaderText)
    (hbody : Level limit loops inside body) (hnext : Level limit (loops + 1) outside text) :
    Level limit (loops + 1) (header.loopProblems + inside + outside)
      (header.eachToken ++ body ++ eachClosing ++ text)
  | conditional {loops : Nat} {inside outside : Multiset DiagnosticKind} {body text : Text}
    (header : HeaderText) (arms : List ArmText) (hbody : Level limit limit inside body)
    (harms : ∀ arm ∈ arms, Level limit limit arm.problems arm.body)
    (hnext : Level limit loops outside text) :
    Level limit loops (header.conditionProblems + inside +
      (arms.map ArmText.allProblems).sum + outside)
      (header.ifToken ++ body ++ arms.flatMap ArmText.text ++ ifClosing ++ text)

namespace Level

variable {limit loops : Nat} {problems : Multiset DiagnosticKind} {text : Text}

/-- More loops may be nested. -/
theorem mono (h : Level limit loops problems text) {more : Nat} (hle : loops ≤ more) :
    Level limit more problems text := by
  induction h generalizing more with
  | nil => exact .nil _
  | insert insert hwell _ ih => exact .insert insert hwell (ih hle)
  | loop header _ _ ihbody ihnext =>
    obtain ⟨more, rfl⟩ :=
      Nat.exists_eq_succ_of_ne_zero (Nat.ne_of_gt (Nat.lt_of_lt_of_le (Nat.succ_pos _) hle))
    exact .loop header (ihbody (Nat.le_of_succ_le_succ hle)) (ihnext hle)
  | conditional header arms hbody harms _ _ _ ihnext =>
    exact .conditional header arms hbody harms (ihnext hle)

/-- Without braces there are no problems. -/
theorem problems_eq_zero (h : Level limit loops problems text) (hfree : '{' ∉ text) :
    problems = 0 := by
  induction h with
  | nil => rfl
  | insert insert _ _ ih => exact ih fun hm => hfree (List.mem_append_right _ hm)
  | loop header => exact absurd List.mem_cons_self hfree
  | conditional header arms => exact absurd List.mem_cons_self hfree

end Level

/-- A character of a text without braces can be inserted. -/
theorem BraceFree.of_cons {c : Char} {text : Text} (h : BraceFree (c :: text)) :
    (Insert.char c).WellFormed ∧ BraceFree text := by
  obtain ⟨hopening, hclosing⟩ := h
  rw [List.mem_cons, not_or] at hopening hclosing
  refine ⟨⟨?_, ?_⟩, hopening.2, hclosing.2⟩
  · rw [List.mem_singleton]
    exact hopening.1
  · rw [List.mem_singleton]
    exact hclosing.1

/-- A blank insert is a blank character. -/
theorem Insert.eq_char_of_isBlank {insert : Insert} (h : insert.isBlank = true) :
    ∃ c, insert = .char c ∧ ComponentFile.isBlank c = true := by
  obtain ⟨c, hc, hblank⟩ :=
    Piece.text_of_isBlank (show (Piece.written insert).isBlank = true from h)
  exact ⟨c, Piece.written.inj hc, hblank⟩

/-- Any other insert starts and ends with a character that is not blank. -/
theorem Insert.text_edges {insert : Insert} (h : insert.isBlank = false) :
    (∃ c rest, insert.text = c :: rest ∧ ComponentFile.isBlank c = false) ∧
      ∃ front c, insert.text = front ++ [c] ∧ ComponentFile.isBlank c = false :=
  Piece.text_edges (show (Piece.written insert).isBlank = false from h)

namespace Level

variable {limit loops : Nat} {problems : Multiset DiagnosticKind} {text : Text}

/-- Markup can be put in front. -/
theorem markup (h : Level limit loops problems text) {front : Text} (hfree : BraceFree front) :
    Level limit loops problems (front ++ text) := by
  induction front with
  | nil => exact h
  | cons c front ih =>
    obtain ⟨hchar, hrest⟩ := hfree.of_cons
    exact .insert (.char c) hchar (ih hrest)

/-- Blanks at the front can be dropped. -/
theorem trimStart (h : Level limit loops problems text) :
    Level limit loops problems text.trimStart := by
  have hbrace (rest : Text) : Text.trimStart ('{' :: rest) = '{' :: rest := by
    refine Text.trimStart_eq_self fun c hc => ?_
    rw [← Option.some.inj hc]
    decide
  induction h with
  | nil => exact .nil _
  | @insert loops problems text insert hwell hnext ih =>
    cases hblank : insert.isBlank with
    | true =>
      obtain ⟨c, rfl, hc⟩ := Insert.eq_char_of_isBlank hblank
      rw [Text.trimStart_append_of_blank (by simp [Insert.text, hc, Text.isBlankText])]
      exact ih
    | false =>
      obtain ⟨⟨c, rest, htext, hc⟩, -⟩ := Insert.text_edges hblank
      rw [Text.trimStart_eq_self (by simp [htext, hc])]
      exact .insert insert hwell hnext
  | loop header hbody hnext => exact (hbrace _).symm ▸ .loop header hbody hnext
  | conditional header arms hbody harms hnext =>
    exact (hbrace _).symm ▸ .conditional header arms hbody harms hnext

/-- Blanks at the end can be dropped. -/
theorem trimEnd (h : Level limit loops problems text) :
    Level limit loops problems text.trimEnd := by
  have hclosing {token : Text} (htoken : token.getLast? = some '}') (front rest : Text) :
      Text.trimEnd (front ++ token ++ rest) = front ++ token ++ rest.trimEnd := by
    refine Text.trimEnd_append_of_getLast (fun c hc => ?_) rest
    rw [List.getLast?_append, htoken] at hc
    rw [← Option.some.inj hc]
    decide
  induction h with
  | nil => exact .nil _
  | @insert loops problems text insert hwell hnext ih =>
    cases htext : text.isBlankText with
    | false =>
      rw [Text.trimEnd_append _ htext]
      exact .insert insert hwell ih
    | true =>
      have hfree : '{' ∉ text := by
        intro hm
        rw [Text.isBlankText_of_mem hm (by decide)] at htext
        cases htext
      rw [hnext.problems_eq_zero hfree, Text.trimEnd_append_of_blank _ htext]
      cases hblank : insert.isBlank with
      | true =>
        obtain ⟨c, rfl, hc⟩ := Insert.eq_char_of_isBlank hblank
        rw [Text.trimEnd_eq_nil_iff.mpr (by simp [Insert.text, hc, Text.isBlankText])]
        exact .nil _
      | false =>
        obtain ⟨-, front, c, hedge, hc⟩ := Insert.text_edges hblank
        rw [Text.trimEnd_eq_self (by simp [hedge, hc])]
        have hone : Level limit loops 0 (insert.text ++ []) := .insert insert hwell (.nil loops)
        rwa [List.append_nil] at hone
  | loop header hbody _ _ ih =>
    rw [hclosing rfl]
    exact .loop header hbody ih
  | conditional header arms hbody harms _ _ _ ih =>
    rw [hclosing rfl]
    exact .conditional header arms hbody harms ih

/-- Blanks around a level can be dropped. -/
theorem trim (h : Level limit loops problems text) : Level limit loops problems text.trim :=
  h.trimStart.trimEnd

end Level

/-! ## Levels without conditionals -/

/-- The text is a level without conditionals, with loops nested at most `loops` deep and inserts as
`keep` says. -/
inductive Remnant (keep : Insert → Prop) : Nat → Multiset DiagnosticKind → Text → Prop
  | nil (loops : Nat) : Remnant keep loops 0 []
  | insert {loops : Nat} {problems : Multiset DiagnosticKind} {text : Text} (insert : Insert)
    (hwell : insert.WellFormed) (hkeep : keep insert) (hnext : Remnant keep loops problems text) :
    Remnant keep loops problems (insert.text ++ text)
  | loop {loops : Nat} {inside outside : Multiset DiagnosticKind} {body text : Text}
    (header : HeaderText)
    (hbody : Remnant keep loops inside body) (hnext : Remnant keep (loops + 1) outside text) :
    Remnant keep (loops + 1) (header.loopProblems + inside + outside)
      (header.eachToken ++ body ++ eachClosing ++ text)

namespace Remnant

variable {keep : Insert → Prop} {loops : Nat} {problems : Multiset DiagnosticKind} {text : Text}

/-- A level without conditionals is a level. -/
theorem level (h : Remnant keep loops problems text) (limit : Nat) :
    Level limit loops problems text := by
  induction h with
  | nil => exact .nil _
  | insert insert hwell _ _ ih => exact .insert insert hwell ih
  | loop header _ _ ihbody ihnext => exact .loop header ihbody ihnext

/-- Markup can be put in front. -/
theorem markup (h : Remnant keep loops problems text) (hkeep : ∀ c, keep (.char c)) {front : Text}
    (hfree : BraceFree front) : Remnant keep loops problems (front ++ text) := by
  induction front with
  | nil => exact h
  | cons c front ih =>
    obtain ⟨hchar, hrest⟩ := hfree.of_cons
    exact .insert (.char c) hchar (hkeep c) (ih hrest)

/-- A placeholder can be put in front. -/
theorem mark (h : Remnant keep loops problems text) (hkeep : ∀ c, keep (.char c))
    (directive : Directive) :
    Remnant keep loops problems (directive.placeholder.render ++ text) := by
  refine h.markup hkeep ⟨not_mem_render directive, fun hm => ?_⟩
  obtain ⟨inner, he, hinner⟩ := Placeholder.render_edges directive.isMarker_placeholder
  rw [he] at hm
  simp only [List.mem_cons, List.mem_append, List.not_mem_nil, or_false, Char.reduceEq,
    false_or] at hm
  exact absurd (hinner _ hm) (by decide)

end Remnant

end ComponentFile.Template
