import ComponentFile.Proofs.Draft.Passes
import ComponentFile.Proofs.Outline.Header

/-!
# The findings about a draft

A draft is the tree of a template whose conditions may be blank and whose loops may bind no names.
Checking the directives of its template finds every such place once, however deep it is nested, and
nothing else.
-/

namespace ComponentFile.Template

open Validation

/-! ## Drafts -/

/-- The word `as` stands nowhere in the text with white space on both sides. -/
def Unbound (text : Text) : Prop :=
  ∀ before space after, text = before ++ space :: 'a' :: 's' :: after → isSpace space = true →
    ∀ c ∈ after.head?, isSpace c = false

/-- The header of a loop, which may bind names or not. -/
inductive LoopOpening where
  /-- An iterable, the word `as` and names. -/
  | bound (header : LoopHeader) (hwell : header.WellFormed)
  /-- A text that binds no names. -/
  | unbound (header : HeaderText) (hunbound : Unbound header.text.trim)

mutual

/-- A level of a template. Each node holds what follows it on its level. -/
inductive Draft where
  | nil
  | insert (insert : Insert) (hwell : insert.WellFormed) (next : Draft)
  | loop (opening : LoopOpening) (body next : Draft)
  | conditional (condition : HeaderText) (body : Draft) (arms : DraftArms) (next : Draft)

/-- The further arms of a conditional, each with a condition or without. -/
inductive DraftArms where
  | nil
  | cons (condition : Option HeaderText) (body : Draft) (rest : DraftArms)

end

namespace LoopOpening

/-- What stands between the keyword and the closing braces. -/
def header : LoopOpening → HeaderText
  | .bound header hwell => ⟨header.inner, hwell.braceFree, by simp [LoopHeader.inner, isSpace]⟩
  | .unbound header _ => header

/-- A loop that binds no names is a problem. -/
def problems : LoopOpening → Multiset DiagnosticKind
  | .bound _ _ => 0
  | .unbound _ _ => {.invalidEachDirective}

end LoopOpening

mutual

/-- The template of a draft. -/
def Draft.text : Draft → Text
  | .nil => []
  | .insert insert _ next => insert.text ++ next.text
  | .loop opening body next => opening.header.eachToken ++ body.text ++ eachClosing ++ next.text
  | .conditional condition body arms next =>
    condition.ifToken ++ body.text ++ arms.text ++ ifClosing ++ next.text

/-- The text of the further arms, up to the token that closes the conditional. -/
def DraftArms.text : DraftArms → Text
  | .nil => []
  | .cons condition body rest => HeaderText.armToken condition ++ body.text ++ rest.text

end

mutual

/-- One problem for each blank condition and one for each loop that binds no names. -/
def Draft.problems : Draft → Multiset DiagnosticKind
  | .nil => 0
  | .insert _ _ next => next.problems
  | .loop opening body next => opening.problems + body.problems + next.problems
  | .conditional condition body arms next =>
    condition.conditionProblems + body.problems + arms.problems + next.problems

/-- The same of further arms. -/
def DraftArms.problems : DraftArms → Multiset DiagnosticKind
  | .nil => 0
  | .cons condition body rest => HeaderText.armProblems condition + body.problems + rest.problems

end

mutual

/-- The length of the longest chain of loops nested in one another without a conditional in between,
in a draft that stands in `enclosing` such loops. -/
def Draft.loopChain : Nat → Draft → Nat
  | enclosing, .nil => enclosing
  | enclosing, .insert _ _ next => next.loopChain enclosing
  | enclosing, .loop _ body next => max (body.loopChain (enclosing + 1)) (next.loopChain enclosing)
  | enclosing, .conditional _ body arms next =>
    max (max (body.loopChain 0) arms.loopChain) (next.loopChain enclosing)

/-- The same of further arms. -/
def DraftArms.loopChain : DraftArms → Nat
  | .nil => 0
  | .cons _ body rest => max (body.loopChain 0) rest.loopChain

end

/-! ## Headers -/

/-- Nothing is bound by a text in which `as` has no white space on both sides. -/
private theorem binding_eq_nil {before text iterable binding : Text}
    (h : splitBindingFrom before text = some (iterable, binding))
    (hunbound : Unbound (before.reverse ++ text)) :
    binding = [] := by
  induction text generalizing before with
  | nil => cases h
  | cons c text ih =>
    have hnext : splitBindingFrom (c :: before) text = some (iterable, binding) → binding = [] := by
      intro h
      refine ih h ?_
      rwa [List.reverse_cons, List.append_assoc]
    rw [splitBindingFrom] at h
    split at h
    · next found hfound =>
      by_cases halone : (before.head?.any isSpace && found.head?.all isSpace) = true
      · rw [if_pos halone] at h
        obtain ⟨rfl, rfl⟩ := Prod.mk.inj (Option.some.inj h)
        rw [Bool.and_eq_true] at halone
        -- the word is found after white space, so no white space follows it
        cases before with
        | nil => cases halone.1
        | cons space before =>
          have hword := Text.after?_eq_some_iff.mp hfound
          have hafter := hunbound before.reverse space found (by simp [hword]) halone.1
          cases found with
          | nil => rfl
          | cons d found =>
            have hspace : isSpace d = true := halone.2
            rw [hafter d rfl] at hspace
            cases hspace
      · rw [if_neg halone] at h
        exact hnext h
    · exact hnext h

private theorem item_parse_of_unbound {header : Text} (h : Unbound header.trim) :
    (LoopHeader.parse header).item = [] := by
  unfold LoopHeader.parse
  split
  · rfl
  · next iterable binding hsplit =>
    rw [binding_eq_nil hsplit h]
    rfl

/-- The loops with a problem are those that bind no names. -/
theorem LoopOpening.loopProblems_header (opening : LoopOpening) :
    opening.header.loopProblems = opening.problems := by
  cases opening with
  | bound header hwell =>
    have hiterable := Text.isBlankText_of_trim_eq hwell.iterable.ne_nil hwell.iterable.trim_eq
    have hitem := Text.isBlankText_of_trim_eq hwell.item.ne_nil hwell.item.trim_eq
    simp only [HeaderText.loopProblems, LoopOpening.header, LoopHeader.parse_inner hwell,
      hiterable, hitem, Bool.or_false, Bool.false_eq_true,
      if_false, LoopOpening.problems]
  | unbound header hunbound =>
    simp only [HeaderText.loopProblems, LoopOpening.header, item_parse_of_unbound hunbound,
      LoopOpening.problems]
    rw [show Text.isBlankText [] = true from rfl, Bool.or_true, if_pos rfl]

/-! ## Drafts are levels -/

/-- The loops around a draft belong to the chain. -/
theorem Draft.le_loopChain (enclosing : Nat) :
    ∀ draft : Draft, enclosing ≤ draft.loopChain enclosing
  | .nil => Nat.le_refl _
  | .insert _ _ next => next.le_loopChain enclosing
  | .loop _ _ next => (next.le_loopChain enclosing).trans (Nat.le_max_right _ _)
  | .conditional _ _ _ next => (next.le_loopChain enclosing).trans (Nat.le_max_right _ _)

/-- The further arms of a conditional as a list. -/
def DraftArms.toList : DraftArms → List ArmText
  | .nil => []
  | .cons condition body rest =>
    { condition, body := body.text, problems := body.problems } :: rest.toList

theorem DraftArms.text_toList : ∀ arms : DraftArms, arms.toList.flatMap ArmText.text = arms.text
  | .nil => rfl
  | .cons condition body rest => by
    rw [DraftArms.toList, List.flatMap_cons, rest.text_toList]
    rfl

theorem DraftArms.problems_toList : ∀ arms : DraftArms,
    (arms.toList.map ArmText.allProblems).sum = arms.problems
  | .nil => rfl
  | .cons condition body rest => by
    rw [DraftArms.toList, List.map_cons, List.sum_cons, rest.problems_toList]
    rfl

mutual

/-- The template of a draft is a level with the problems of the draft. -/
theorem Draft.level {limit enclosing : Nat} : ∀ {draft : Draft}, draft.loopChain enclosing ≤ limit →
    Level limit (limit - enclosing) draft.problems draft.text
  | .nil, _ => .nil _
  | .insert insert hwell next, h => by
    have hnext : next.loopChain enclosing ≤ limit := h
    exact .insert insert hwell (Draft.level hnext)
  | .loop opening body next, h => by
    obtain ⟨hbody, hnext⟩ := Nat.max_le.mp h
    have hinside := body.le_loopChain (enclosing + 1)
    have hone : limit - enclosing = limit - (enclosing + 1) + 1 := by omega
    have hlevel := Draft.level hnext
    rw [hone] at hlevel ⊢
    rw [Draft.problems, ← opening.loopProblems_header]
    exact .loop opening.header (Draft.level hbody) hlevel
  | .conditional condition body arms next, h => by
    obtain ⟨hinside, hnext⟩ := Nat.max_le.mp h
    obtain ⟨hbody, harms⟩ := Nat.max_le.mp hinside
    rw [Draft.problems, ← arms.problems_toList, Draft.text, ← arms.text_toList]
    exact .conditional condition arms.toList (Draft.level hbody) (DraftArms.level harms)
      (Draft.level hnext)

/-- The same of the bodies of further arms. -/
theorem DraftArms.level {limit : Nat} : ∀ {arms : DraftArms}, arms.loopChain ≤ limit →
    ∀ arm ∈ arms.toList, Level limit limit arm.problems arm.body
  | .nil, _, arm, hm => by cases hm
  | .cons condition body rest, h, arm, hm => by
    obtain ⟨hbody, hrest⟩ := Nat.max_le.mp h
    rcases List.mem_cons.mp hm with rfl | hm
    · exact Draft.level hbody
    · exact DraftArms.level hrest arm hm

end

/-- The findings about the directives of a draft are its problems: each blank condition and each
loop that binds no names is found once, and nothing else is. -/
theorem checkDirectives_process (settings : Settings) (draft : Draft)
    (htagless : isTagless draft.text = true) (hlimit : 1 ≤ settings.passLimit)
    (hchain : draft.loopChain 0 ≤ settings.passLimit) :
    (((checkDirectives settings (process settings draft.text)).map Finding.kind :
      List DiagnosticKind) : Multiset DiagnosticKind) = draft.problems :=
  Level.faults_process settings (Draft.level hchain) htagless hlimit

/-- A blank condition, a loop without names inside one with names, and a blank condition of a
further arm. -/
theorem checkDirectives_process_nested :
    ∃ draft : Draft,
      draft.text = ifKeyword ++ closing ++
          (eachKeyword ++ [' ', 'l', ' ', 'a', 's', ' ', 'i'] ++ closing ++
            (eachKeyword ++ [' ', 'x', ' ', 'a', 's'] ++ closing ++ eachClosing) ++ eachClosing) ++
          (elseKeyword ++ [' ', 'i', 'f', ' '] ++ closing ++ ['!']) ++ ifClosing ∧
        isTagless draft.text = true ∧ draft.loopChain 0 ≤ 2 ∧
        (((checkDirectives { passLimit := 2 } (process { passLimit := 2 } draft.text)).map
          Finding.kind : List DiagnosticKind) : Multiset DiagnosticKind) =
            {.emptyCondition, .invalidEachDirective, .emptyCondition} := by
  have hfree : BraceFree [] := ⟨List.not_mem_nil, List.not_mem_nil⟩
  let blank : HeaderText := ⟨[], hfree, by simp⟩
  let space : HeaderText := ⟨[' '], ⟨by decide, by decide⟩, by simp [isSpace]⟩
  let dangling : HeaderText :=
    ⟨[' ', 'x', ' ', 'a', 's'], ⟨by decide, by decide⟩, by simp [isSpace]⟩
  have hunbound : Unbound dangling.text.trim := by
    intro before blank after h
    have hlength := congrArg List.length h
    have hfour : List.length dangling.text.trim = 4 := rfl
    rw [hfour, List.length_append, List.length_cons, List.length_cons, List.length_cons] at hlength
    cases after with
    | nil => simp
    | cons c after =>
      -- then the word would be the first one
      have hbefore : before = [] :=
        List.length_eq_zero_iff.mp (by rw [List.length_cons] at hlength; omega)
      rw [hbefore] at h
      cases h
  let header : LoopHeader := ⟨['l'], ['i'], none⟩
  have hbinding : NoBinding ['l'] := by
    intro before blank after h
    have hlength := congrArg List.length h
    simp only [List.length_append, List.length_cons, List.length_nil] at hlength
    omega
  have hindex : ∀ name ∈ header.indexName, IsName name := by
    intro name hm
    cases hm
  have hheader : header.WellFormed :=
    ⟨⟨by decide, by decide, by decide, by decide⟩, ⟨by decide, by decide, by decide, by decide⟩,
      hindex, hbinding, by decide⟩
  let body : Draft :=
    .loop (.bound header hheader) (.loop (.unbound dangling hunbound) .nil .nil) .nil
  let last : Draft := .insert (.char '!') ⟨by decide, by decide⟩ .nil
  let draft : Draft := .conditional blank body (.cons (some space) last .nil) .nil
  have hchain : draft.loopChain 0 ≤ 2 := Nat.le_refl 2
  have hfound := checkDirectives_process { passLimit := 2 } draft rfl (by decide) hchain
  exact ⟨draft, rfl, rfl, hchain, hfound⟩

end ComponentFile.Template
