import ComponentFile.Proofs.Outline.Reading
import ComponentFile.Proofs.Outline.Tokens

/-!
# Outlines during processing

While a template is processed, placeholders stand in its text for directives already taken out. An
outline of pieces describes such a text: a piece is a leaf of the template, or a mark for a
directive of the finished template. What a mark stands for is known from the finished template, so
the outline has the same normal form before and after a directive is taken out.
-/

namespace ComponentFile.Template

/-- A leaf of a template that is being processed. -/
inductive Piece where
  /-- A leaf of the template. -/
  | written (insert : Insert)
  /-- The placeholder of a directive. -/
  | mark (directive : Directive)

namespace Piece

/-- The text of a piece. -/
def text : Piece → Text
  | .written insert => insert.text
  | .mark directive => directive.placeholder.render

/-- Whether the piece is a blank character. -/
def isBlank : Piece → Bool
  | .written insert => insert.isBlank
  | .mark _ => false

/-- Puts what the piece stands for in front of an outline. -/
def place (template : ProcessedTemplate) : Piece → Outline Insert → Outline Insert
  | .written insert => insert.place
  | .mark directive => directive.kind.place template.read

end Piece

/-- Puts a node that is not markup in front of an outline. -/
inductive IsBlock : (Outline Insert → Outline Insert) → Prop
  | leaf {insert : Insert} (h : insert.isBlank = false) : IsBlock (.leaf insert)
  | loop (header : LoopHeader) (body : Outline Insert) : IsBlock (.loop header body)
  | conditional (condition : Text) (body : Outline Insert) (arms : Arms Insert) :
    IsBlock (.conditional condition body arms)

/-- A leaf is well-formed, and a mark stands for a node of the template. -/
def Piece.WellFormed (template : ProcessedTemplate) : Piece → Prop
  | .written insert => insert.WellFormed
  | .mark directive =>
    directive ∈ template.directives.toList ∧ IsBlock (directive.kind.place template.read)

namespace Outline

variable {α : Type}

/-! ## The first node of an outline -/

/-- What follows the first node. -/
def next : Outline α → Outline α
  | .nil => .nil
  | .leaf _ next | .loop _ _ next | .conditional _ _ _ next => next

/-- The text of the first node. -/
def headText (leafText : α → Text) : Outline α → Text
  | .nil => []
  | .leaf value _ => leafText value
  | .loop header body _ => header.token ++ body.text leafText ++ eachClosing
  | .conditional condition body arms _ =>
    ifToken condition ++ body.text leafText ++ arms.text leafText ++ ifClosing

/-- Puts the normal form of the first node in front of an outline. -/
def headPlace (place : α → Outline Insert → Outline Insert) :
    Outline α → Outline Insert → Outline Insert
  | .nil => fun next => next
  | .leaf value _ => place value
  | .loop header body _ => .loop header ((body.normal place).trim Insert.isBlank)
  | .conditional condition body arms _ =>
    .conditional condition.trim ((body.normal place).trim Insert.isBlank) (arms.normal place)

/-- The text of an outline is that of its first node and of the rest. -/
theorem headText_append_next (leafText : α → Text) (outline : Outline α) :
    outline.headText leafText ++ outline.next.text leafText = outline.text leafText := by
  cases outline <;> simp only [headText, next, text, List.nil_append]

/-- The normal form of an outline is that of its first node and of the rest. -/
theorem headPlace_next (place : α → Outline Insert → Outline Insert) (outline : Outline α) :
    outline.headPlace place (outline.next.normal place) = outline.normal place := by
  cases outline <;> simp only [headPlace, next, normal]

end Outline

/-! ## Trimming the text of an outline -/

/-- The text of a blank piece is a blank character. -/
theorem Piece.text_of_isBlank {piece : Piece} (h : piece.isBlank = true) :
    ∃ c, piece = .written (.char c) ∧ ComponentFile.isBlank c = true := by
  cases piece with
  | mark directive => cases h
  | written insert =>
    cases insert with
    | char c => exact ⟨c, rfl, h⟩
    | interpolation expression => cases h
    | rawMarkup content => cases h

/-- The text of a mark has no opening braces. -/
theorem not_mem_render (directive : Directive) : '{' ∉ directive.placeholder.render := by
  obtain ⟨inner, he, hinner⟩ := Placeholder.render_edges directive.isMarker_placeholder
  intro hm
  rw [he] at hm
  simp only [List.mem_cons, List.mem_append, List.not_mem_nil, or_false] at hm
  rcases hm with hm | hm | hm | hm
  · cases hm
  · cases hm
  · exact absurd (hinner _ hm) (by decide)
  · cases hm

/-- The text of any other piece starts and ends with a character that is not blank. -/
theorem Piece.text_edges {piece : Piece} (h : piece.isBlank = false) :
    (∃ c rest, piece.text = c :: rest ∧ ComponentFile.isBlank c = false) ∧
      ∃ front c, piece.text = front ++ [c] ∧ ComponentFile.isBlank c = false := by
  cases piece with
  | mark directive =>
    obtain ⟨inner, he, _⟩ := Placeholder.render_edges directive.isMarker_placeholder
    exact ⟨⟨'<', _, he, by decide⟩, ⟨'<' :: '!' :: inner, '>', he, by decide⟩⟩
  | written insert =>
    cases insert with
    | char c => exact ⟨⟨c, [], rfl, h⟩, ⟨[], c, rfl, h⟩⟩
    | interpolation expression =>
      refine ⟨⟨'{', _, rfl, by decide⟩, ⟨opening ++ expression ++ ['}'], '}', ?_, by decide⟩⟩
      exact (List.append_assoc _ ['}'] ['}']).symm
    | rawMarkup content =>
      refine ⟨⟨'{', _, rfl, by decide⟩,
        ⟨rawKeyword ++ (' ' :: content) ++ ['}'], '}', ?_, by decide⟩⟩
      exact (List.append_assoc _ ['}'] ['}']).symm

namespace Outline

private theorem text_trimStart :
    ∀ outline : Outline Piece,
      (outline.trimStart Piece.isBlank).text Piece.text = (outline.text Piece.text).trimStart
  | .nil => rfl
  | .leaf piece next => by
    cases hblank : piece.isBlank with
    | true =>
      obtain ⟨c, rfl, hc⟩ := Piece.text_of_isBlank hblank
      rw [trimStart, if_pos hblank, text_trimStart next]
      exact (Text.trimStart_append_of_blank
        (by simp [Piece.text, Insert.text, Text.isBlankText, hc]) _).symm
    | false =>
      obtain ⟨⟨c, rest, htext, hc⟩, _⟩ := Piece.text_edges hblank
      rw [trimStart, if_neg (by simp [hblank]), Text.trimStart_eq_self]
      simp [text, htext, hc]
  | .loop header body next => (Text.trimStart_eq_self (by
      rintro c ⟨⟩
      decide)).symm
  | .conditional condition body arms next => (Text.trimStart_eq_self (by
      rintro c ⟨⟩
      decide)).symm

/-- Only an empty outline has an empty text. -/
theorem eq_nil_of_text_eq_nil {outline : Outline Piece} (h : outline.text Piece.text = []) :
    outline = .nil := by
  cases outline with
  | nil => rfl
  | leaf piece next =>
    rw [text, List.append_eq_nil_iff] at h
    cases hblank : piece.isBlank with
    | true =>
      obtain ⟨c, rfl, _⟩ := Piece.text_of_isBlank hblank
      cases h.1
    | false =>
      obtain ⟨⟨c, rest, htext, _⟩, _⟩ := Piece.text_edges hblank
      rw [htext] at h
      cases h.1
  | loop header body next => cases h
  | conditional condition body arms next => cases h

private theorem text_trimEnd :
    ∀ outline : Outline Piece,
      (outline.trimEnd Piece.isBlank).text Piece.text = (outline.text Piece.text).trimEnd
  | .nil => rfl
  | .leaf piece next => by
    have ih := text_trimEnd next
    cases hblank : piece.isBlank with
    | false =>
      obtain ⟨_, front, c, htext, hc⟩ := Piece.text_edges hblank
      rw [trimEnd_leaf_of_not_blank hblank, text, text, ih]
      exact (Text.trimEnd_append_of_getLast (by simp [htext, hc]) _).symm
    | true =>
      obtain ⟨c, rfl, hc⟩ := Piece.text_of_isBlank hblank
      cases hnext : (next.text Piece.text).isBlankText with
      | true =>
        rw [Text.trimEnd_eq_nil_iff.mpr hnext] at ih
        rw [trimEnd_leaf_of_blank hblank (eq_nil_of_text_eq_nil ih)]
        refine (Text.trimEnd_eq_nil_iff.mpr ?_).symm
        rw [text, Text.isBlankText_append, hnext]
        simp [Piece.text, Insert.text, Text.isBlankText, hc]
      | false =>
        have hne : next.trimEnd Piece.isBlank ≠ .nil := by
          intro hnil
          rw [hnil] at ih
          rw [Text.trimEnd_eq_nil_iff.mp ih.symm] at hnext
          cases hnext
        rw [trimEnd_leaf_of_ne_nil _ hne, text, text, ih]
        exact (Text.trimEnd_append _ hnext).symm
  | .loop header body next => by
    rw [trimEnd, text, text, text_trimEnd next]
    refine (Text.trimEnd_append_of_getLast (fun c hc => ?_) _).symm
    rw [List.getLast?_append] at hc
    rw [← Option.some.inj hc]
    decide
  | .conditional condition body arms next => by
    rw [trimEnd, text, text, text_trimEnd next]
    refine (Text.trimEnd_append_of_getLast (fun c hc => ?_) _).symm
    rw [List.getLast?_append] at hc
    rw [← Option.some.inj hc]
    decide

/-- Dropping blank leaves at both ends trims the text. -/
theorem text_trim (outline : Outline Piece) :
    (outline.trim Piece.isBlank).text Piece.text = (outline.text Piece.text).trim := by
  rw [trim, text_trimEnd, text_trimStart]
  rfl

end Outline

/-! ## Trimming the normal form -/

/-- A block in front stops trimming at the front. -/
theorem IsBlock.trimStart_eq {place : Outline Insert → Outline Insert} (h : IsBlock place)
    (next : Outline Insert) : (place next).trimStart Insert.isBlank = place next := by
  cases h with
  | leaf h => rw [Outline.trimStart, if_neg (by simp [h])]
  | loop header body => rfl
  | conditional condition body arms => rfl

/-- A block in front is kept by trimming at the end. -/
theorem IsBlock.trimEnd_eq {place : Outline Insert → Outline Insert} (h : IsBlock place)
    (next : Outline Insert) :
    (place next).trimEnd Insert.isBlank = place (next.trimEnd Insert.isBlank) := by
  cases h with
  | leaf h => exact Outline.trimEnd_leaf_of_not_blank h next
  | loop header body => rfl
  | conditional condition body arms => rfl

/-- Every piece but a blank character stands for a block. -/
theorem Piece.isBlock_place {template : ProcessedTemplate} {piece : Piece}
    (hwell : piece.WellFormed template) (hblank : piece.isBlank = false) :
    IsBlock (piece.place template) := by
  cases piece with
  | mark directive => exact hwell.2
  | written insert =>
    cases insert with
    | char c => exact IsBlock.leaf hblank
    | interpolation expression => exact IsBlock.leaf rfl
    | rawMarkup content => exact IsBlock.leaf rfl

namespace Outline

variable {template : ProcessedTemplate}

/-- Trimming at the front commutes with taking the normal form. -/
private theorem normal_trimStart :
    ∀ {outline : Outline Piece}, outline.WellFormed (Piece.WellFormed template) →
      (outline.trimStart Piece.isBlank).normal (Piece.place template) =
        (outline.normal (Piece.place template)).trimStart Insert.isBlank
  | .nil, _ => rfl
  | .leaf piece next, ⟨hpiece, hnext⟩ => by
    cases hblank : piece.isBlank with
    | true =>
      obtain ⟨c, rfl, hc⟩ := Piece.text_of_isBlank hblank
      rw [trimStart, if_pos hblank, normal_trimStart hnext]
      exact (if_pos hc).symm
    | false =>
      rw [trimStart, if_neg (by simp [hblank]), normal,
        (Piece.isBlock_place hpiece hblank).trimStart_eq]
  | .loop header body next, _ => rfl
  | .conditional condition body arms next, _ => rfl

/-- Only an empty outline has an empty normal form. -/
theorem eq_nil_of_normal_eq_nil {outline : Outline Piece}
    (hwell : outline.WellFormed (Piece.WellFormed template))
    (h : outline.normal (Piece.place template) = .nil) : outline = .nil := by
  cases outline with
  | nil => rfl
  | leaf piece next =>
    cases hblank : piece.isBlank with
    | true =>
      obtain ⟨c, rfl, _⟩ := Piece.text_of_isBlank hblank
      cases h
    | false =>
      have hblock := Piece.isBlock_place hwell.1 hblank
      rw [normal] at h
      generalize piece.place template = place at h hblock
      cases hblock <;> cases h
  | loop header body next => cases h
  | conditional condition body arms next => cases h

/-- Trimming keeps an outline well-formed. -/
theorem WellFormed.trimStart {leaf : Piece → Prop} :
    ∀ {outline : Outline Piece}, outline.WellFormed leaf →
      (outline.trimStart Piece.isBlank).WellFormed leaf
  | .nil, h => h
  | .leaf piece next, h => by
    rw [Outline.trimStart]
    split
    · exact WellFormed.trimStart h.2
    · exact h
  | .loop header body next, h => h
  | .conditional condition body arms next, h => h

/-- Trimming keeps an outline well-formed. -/
theorem WellFormed.trimEnd {leaf : Piece → Prop} :
    ∀ {outline : Outline Piece}, outline.WellFormed leaf →
      (outline.trimEnd Piece.isBlank).WellFormed leaf
  | .nil, h => h
  | .leaf piece next, h => by
    rw [Outline.trimEnd]
    split
    · trivial
    · exact ⟨h.1, WellFormed.trimEnd h.2⟩
  | .loop header body next, h => ⟨h.1, h.2.1, WellFormed.trimEnd h.2.2⟩
  | .conditional condition body arms next, h => ⟨h.1, h.2.1, h.2.2.1, WellFormed.trimEnd h.2.2.2⟩

private theorem normal_trimEnd :
    ∀ {outline : Outline Piece}, outline.WellFormed (Piece.WellFormed template) →
      (outline.trimEnd Piece.isBlank).normal (Piece.place template) =
        (outline.normal (Piece.place template)).trimEnd Insert.isBlank
  | .nil, _ => rfl
  | .leaf piece next, ⟨hpiece, hnext⟩ => by
    have ih := normal_trimEnd hnext
    cases hblank : piece.isBlank with
    | false =>
      rw [trimEnd_leaf_of_not_blank hblank, normal, normal,
        (Piece.isBlock_place hpiece hblank).trimEnd_eq, ih]
    | true =>
      obtain ⟨c, rfl, _⟩ := Piece.text_of_isBlank hblank
      have hc : (Insert.char c).isBlank = true := hblank
      by_cases hnil : next.trimEnd Piece.isBlank = .nil
      · rw [hnil] at ih
        rw [trimEnd_leaf_of_blank hblank hnil]
        exact (trimEnd_leaf_of_blank hc ih.symm).symm
      · have hne : (next.normal (Piece.place template)).trimEnd Insert.isBlank ≠ .nil := by
          rw [← ih]
          exact fun he => hnil (eq_nil_of_normal_eq_nil hnext.trimEnd he)
        rw [trimEnd_leaf_of_ne_nil _ hnil, normal, ih]
        exact (trimEnd_leaf_of_ne_nil _ hne).symm
  | .loop header body next, ⟨_, _, hnext⟩ => by
    rw [trimEnd, normal, normal, normal_trimEnd hnext, trimEnd]
  | .conditional condition body arms next, ⟨_, _, _, hnext⟩ => by
    rw [trimEnd, normal, normal, normal_trimEnd hnext, trimEnd]

/-- Trimming commutes with taking the normal form. -/
theorem normal_trim {outline : Outline Piece} (h : outline.WellFormed (Piece.WellFormed template)) :
    (outline.trim Piece.isBlank).normal (Piece.place template) =
      (outline.normal (Piece.place template)).trim Insert.isBlank := by
  rw [trim, normal_trimEnd h.trimStart, normal_trimStart h]
  rfl

end Outline

end ComponentFile.Template
