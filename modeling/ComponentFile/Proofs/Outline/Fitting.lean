import ComponentFile.Proofs.Outline.Piece

/-!
# Outlines that processing can deal with

Four things are needed to process the text of an outline: it is well-formed, no run of its markup
reads as a placeholder or a component, the depth left is enough for its braces, and the pass limit
for its loops. They pass on to all parts of the outline, so they are kept together (`Outline.Fits`).
-/

namespace ComponentFile.Template

/-- Two texts in a row start no component if neither does and none starts across the seam. -/
theorem isTagless_append_iff {left right : Text} :
    isTagless (left ++ right) = true ↔ isTagless left = true ∧ isTagless right = true ∧
      (left.getLast? = some '<' → right.head?.any Char.isUpper = false) := by
  induction left with
  | nil => simp [isTagless]
  | cons c left ih =>
    rw [List.cons_append, isTagless, isTagless, Bool.and_eq_true, ih, Bool.and_eq_true]
    cases left with
    | nil => cases hc : c == '<' <;> simp_all [isTagless, and_comm]
    | cons d left => simp [and_assoc]

/-- The text holds no placeholder and no start of a component. -/
structure IsMarkup (text : Text) : Prop where
  absent : Placeholder.Absent text
  isTagless : isTagless text = true

/-- A connected piece of markup is markup. -/
theorem IsMarkup.of_isInfix {piece text : Text} (h : IsMarkup text) (hp : piece <:+: text) :
    IsMarkup piece where
  absent := fun placeholder inner hs hi => h.absent placeholder inner hs (hi.trans hp)
  isTagless := by
    obtain ⟨before, after, rfl⟩ := hp
    exact (isTagless_append_iff.mp (isTagless_append_iff.mp h.isTagless).1).2.1

mutual

/-- Every run of characters between other nodes is markup; `run` is the part of the first run that
stands before the outline. -/
def Outline.Clear : Text → Outline Piece → Prop
  | run, .nil => IsMarkup run
  | run, .leaf (.written (.char c)) next => next.Clear (run ++ [c])
  | run, .leaf (.written (.interpolation _)) next
  | run, .leaf (.written (.rawMarkup _)) next
  | run, .leaf (.mark _) next => IsMarkup run ∧ next.Clear []
  | run, .loop _ body next => IsMarkup run ∧ body.Clear [] ∧ next.Clear []
  | run, .conditional _ body arms next => IsMarkup run ∧ body.Clear [] ∧ arms.Clear ∧ next.Clear []

/-- The same of the bodies of further arms. -/
def Arms.Clear : Arms Piece → Prop
  | .nil => True
  | .cons _ body rest => body.Clear [] ∧ rest.Clear

end

namespace Outline

/-- What follows the first node is well-formed. -/
theorem WellFormed.next {leaf : Piece → Prop} {outline : Outline Piece}
    (h : outline.WellFormed leaf) :
    outline.next.WellFormed leaf := by
  cases outline with
  | nil => trivial
  | leaf piece next => exact h.2
  | loop header body next => exact h.2.2
  | conditional condition body arms next => exact h.2.2.2

/-- A part of the first run is markup if the whole run is. -/
theorem Clear.of_append {left : Text} :
    ∀ {run : Text} {outline : Outline Piece}, outline.Clear (left ++ run) → outline.Clear run
  | run, .nil, h => IsMarkup.of_isInfix h (List.suffix_append left run).isInfix
  | run, .leaf (.written (.char c)) next, h => by
    rw [Clear, List.append_assoc] at h
    rw [Clear]
    exact Clear.of_append h
  | run, .leaf (.written (.interpolation _)) next, h
  | run, .leaf (.written (.rawMarkup _)) next, h
  | run, .leaf (.mark _) next, h
  | run, .loop _ _ next, h
  | run, .conditional _ _ _ next, h =>
    ⟨h.1.of_isInfix (List.suffix_append left run).isInfix, h.2⟩

/-- What follows the first node is clear. -/
theorem Clear.next {run : Text} :
    ∀ {outline : Outline Piece}, outline.Clear run → outline.next.Clear []
  | .nil, h => IsMarkup.of_isInfix h (List.nil_infix)
  | .leaf (.written (.char c)) next, h => by
    rw [Clear, ← List.append_nil (run ++ [c])] at h
    exact h.of_append
  | .leaf (.written (.interpolation _)) next, h
  | .leaf (.written (.rawMarkup _)) next, h
  | .leaf (.mark _) next, h => h.2
  | .loop _ _ next, h => h.2.2
  | .conditional _ _ _ next, h => h.2.2.2

/-- Trimming at the front keeps an outline clear. -/
theorem Clear.trimStart :
    ∀ {run : Text} {outline : Outline Piece}, outline.Clear run →
      (outline.trimStart Piece.isBlank).Clear []
  | run, .nil, h => IsMarkup.of_isInfix h List.nil_infix
  | run, .leaf piece next, h => by
    rw [Outline.trimStart]
    split
    · exact Clear.trimStart h.next
    · rw [← List.append_nil run] at h
      exact h.of_append
  | run, .loop _ _ next, h
  | run, .conditional _ _ _ next, h => ⟨h.1.of_isInfix List.nil_infix, h.2⟩

/-- Trimming at the end keeps an outline clear. -/
theorem Clear.trimEnd :
    ∀ {run : Text} {outline : Outline Piece}, outline.Clear run →
      (outline.trimEnd Piece.isBlank).Clear run
  | run, .nil, h => h
  | run, .leaf (.written (.char c)) next, h => by
    have hnext : (next.trimEnd Piece.isBlank).Clear (run ++ [c]) := Clear.trimEnd h
    rw [Outline.trimEnd]
    split
    · next hnil =>
      rw [hnil] at hnext
      exact IsMarkup.of_isInfix hnext (List.prefix_append run [c]).isInfix
    · exact hnext
  | run, .leaf (.written (.interpolation _)) next, h
  | run, .leaf (.written (.rawMarkup _)) next, h
  | run, .leaf (.mark _) next, h => by
    rw [trimEnd_leaf_of_not_blank rfl]
    exact ⟨h.1, Clear.trimEnd h.2⟩
  | run, .loop _ _ next, h => ⟨h.1, h.2.1, Clear.trimEnd h.2.2⟩
  | run, .conditional _ _ _ next, h => ⟨h.1, h.2.1, h.2.2.1, Clear.trimEnd h.2.2.2⟩

/-! ## Loops -/

variable {α : Type}

private theorem loopChain_mono {fewer more : Nat} (hle : fewer ≤ more) :
    ∀ outline : Outline α, outline.loopChain fewer ≤ outline.loopChain more
  | .nil => hle
  | .leaf _ next => loopChain_mono hle next
  | .loop _ body next => by
    have hbody := loopChain_mono (Nat.add_le_add_right hle 1) body
    have hnext := loopChain_mono hle next
    rw [loopChain, loopChain]
    omega
  | .conditional _ _ _ next => by
    have hnext := loopChain_mono hle next
    rw [loopChain, loopChain]
    omega

/-- The chain is at least as long as the loops around the outline are many. -/
theorem le_loopChain (enclosing : Nat) :
    ∀ outline : Outline α, enclosing ≤ outline.loopChain enclosing
  | .nil => Nat.le_refl _
  | .leaf _ next => le_loopChain enclosing next
  | .loop _ _ next => (le_loopChain enclosing next).trans (Nat.le_max_right _ _)
  | .conditional _ _ _ next => (le_loopChain enclosing next).trans (Nat.le_max_right _ _)

/-- What follows the first node has no longer chain. -/
theorem loopChain_next_le (enclosing : Nat) (outline : Outline α) :
    outline.next.loopChain enclosing ≤ outline.loopChain enclosing := by
  cases outline with
  | nil => exact Nat.le_refl _
  | leaf value next => exact Nat.le_refl _
  | loop header body next => exact Nat.le_max_right _ _
  | conditional condition body arms next => exact Nat.le_max_right _ _

private theorem loopChain_trimStart (blank : α → Bool) (enclosing : Nat) :
    ∀ outline : Outline α, (outline.trimStart blank).loopChain enclosing =
      outline.loopChain enclosing
  | .nil => rfl
  | .leaf value next => by
    rw [trimStart]
    split
    · exact loopChain_trimStart blank enclosing next
    · rfl
  | .loop _ _ _ => rfl
  | .conditional _ _ _ _ => rfl

private theorem loopChain_trimEnd (blank : α → Bool) (enclosing : Nat) :
    ∀ outline : Outline α, (outline.trimEnd blank).loopChain enclosing = outline.loopChain enclosing
  | .nil => rfl
  | .leaf value next => by
    have ih := loopChain_trimEnd blank enclosing next
    rw [trimEnd]
    split
    · next hnil =>
      rw [hnil] at ih
      exact ih
    · exact ih
  | .loop _ _ next => by rw [trimEnd, loopChain, loopChain, loopChain_trimEnd blank enclosing next]
  | .conditional _ _ _ next => by
    rw [trimEnd, loopChain, loopChain, loopChain_trimEnd blank enclosing next]

end Outline

/-! ## Fitting outlines -/

/-- The number of opening braces in a text. -/
def braces (text : Text) : Nat := text.count '{'

/-- Processing can deal with the outline, with a pass limit and a depth. -/
structure Outline.Fits (template : ProcessedTemplate) (limit depth : Nat)
    (outline : Outline Piece) : Prop where
  wellFormed : outline.WellFormed (Piece.WellFormed template)
  clear : outline.Clear []
  braces_le : braces (outline.text Piece.text) ≤ depth
  loopChain_le : outline.loopChain 0 ≤ limit

/-- The same of further arms. -/
structure Arms.Fits (template : ProcessedTemplate) (limit depth : Nat) (arms : Arms Piece) :
    Prop where
  wellFormed : arms.WellFormed (Piece.WellFormed template)
  clear : arms.Clear
  braces_le : braces (arms.text Piece.text) ≤ depth
  loopChain_le : arms.loopChain ≤ limit

/-- The braces of two texts in a row add up. -/
theorem braces_append (left right : Text) : braces (left ++ right) = braces left + braces right :=
  List.count_append

/-- A connected piece has no more braces. -/
theorem braces_le_of_isInfix {piece text : Text} (h : piece <:+: text) :
    braces piece ≤ braces text :=
  h.sublist.count_le '{'

/-- A token has braces. -/
theorem braces_pos {c : Char} {text : Text} (h : c = '{') : 0 < braces (c :: text) :=
  List.count_pos_iff.mpr (h ▸ List.mem_cons_self)

section

variable {template : ProcessedTemplate} {limit depth : Nat}

/-- What follows the first node of a fitting outline fits. -/
theorem Outline.Fits.next {outline : Outline Piece} (h : outline.Fits template limit depth) :
    outline.next.Fits template limit depth where
  wellFormed := h.wellFormed.next
  clear := h.clear.next
  braces_le := by
    have hle := h.braces_le
    rw [← headText_append_next, braces_append] at hle
    omega
  loopChain_le := (loopChain_next_le 0 outline).trans h.loopChain_le

/-- More depth does no harm. -/
theorem Outline.Fits.mono {outline : Outline Piece} (h : outline.Fits template limit depth) :
    outline.Fits template limit (depth + 1) :=
  { h with braces_le := h.braces_le.trans (Nat.le_succ _) }

/-- The body of a loop fits with less depth. -/
theorem Outline.Fits.loopBody {header : LoopHeader} {body next : Outline Piece}
    (h : (Outline.loop header body next).Fits template limit (depth + 1)) :
    body.Fits template limit depth where
  wellFormed := h.wellFormed.2.1
  clear := h.clear.2.1
  braces_le := by
    have hle := h.braces_le
    have htoken : 0 < braces header.token := braces_pos rfl
    rw [text, braces_append, braces_append, braces_append] at hle
    omega
  loopChain_le := by
    have hle := h.loopChain_le
    have hmono := loopChain_mono (Nat.zero_le (0 + 1)) body
    rw [loopChain] at hle
    omega

/-- The leading body of a conditional fits with less depth. -/
theorem Outline.Fits.conditionalBody {condition : Text} {body next : Outline Piece}
    {arms : Arms Piece}
    (h : (Outline.conditional condition body arms next).Fits template limit (depth + 1)) :
    body.Fits template limit depth where
  wellFormed := h.wellFormed.2.1
  clear := h.clear.2.1
  braces_le := by
    have hle := h.braces_le
    have htoken : 0 < braces (ifToken condition) := braces_pos rfl
    rw [text, braces_append, braces_append, braces_append, braces_append] at hle
    omega
  loopChain_le := by
    have hle := h.loopChain_le
    rw [loopChain] at hle
    omega

/-- The further arms of a conditional fit with less depth. -/
theorem Outline.Fits.arms {condition : Text} {body next : Outline Piece} {arms : Arms Piece}
    (h : (Outline.conditional condition body arms next).Fits template limit (depth + 1)) :
    arms.Fits template limit depth where
  wellFormed := h.wellFormed.2.2.1
  clear := h.clear.2.2.1
  braces_le := by
    have hle := h.braces_le
    have htoken : 0 < braces (ifToken condition) := braces_pos rfl
    rw [text, braces_append, braces_append, braces_append, braces_append] at hle
    omega
  loopChain_le := by
    have hle := h.loopChain_le
    rw [loopChain] at hle
    omega

/-- The body of the first arm fits. -/
theorem Arms.Fits.body {condition : Option Text} {body : Outline Piece} {rest : Arms Piece}
    (h : (Arms.cons condition body rest).Fits template limit depth) :
    body.Fits template limit depth where
  wellFormed := h.wellFormed.2.1
  clear := h.clear.1
  braces_le := by
    have hle := h.braces_le
    rw [text, braces_append, braces_append] at hle
    omega
  loopChain_le := (Nat.le_max_left _ _).trans h.loopChain_le

/-- The other arms fit. -/
theorem Arms.Fits.rest {condition : Option Text} {body : Outline Piece} {rest : Arms Piece}
    (h : (Arms.cons condition body rest).Fits template limit depth) :
    rest.Fits template limit depth where
  wellFormed := h.wellFormed.2.2
  clear := h.clear.2
  braces_le := by
    have hle := h.braces_le
    rw [text, braces_append, braces_append] at hle
    omega
  loopChain_le := (Nat.le_max_right _ _).trans h.loopChain_le

/-- A fitting outline still fits when it is trimmed. -/
theorem Outline.Fits.trim {outline : Outline Piece} (h : outline.Fits template limit depth) :
    (outline.trim Piece.isBlank).Fits template limit depth where
  wellFormed := h.wellFormed.trimStart.trimEnd
  clear := h.clear.trimStart.trimEnd
  braces_le := by
    rw [text_trim]
    exact (braces_le_of_isInfix (Text.trim_isInfix _)).trans h.braces_le
  loopChain_le := by
    rw [Outline.trim, loopChain_trimEnd, loopChain_trimStart]
    exact h.loopChain_le

end

end ComponentFile.Template
