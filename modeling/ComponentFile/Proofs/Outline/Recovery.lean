import ComponentFile.Proofs.Outline.Passes

/-!
# Processing reads its own grammar

A template that is written from an outline is processed into directives and placeholders from which
the outline can be seen again, in normal form. There is one condition on the settings, that there
are as many passes as loops nest in one another, and one on the template, that its markup has
nothing that reads as a placeholder or a component.
-/

namespace ComponentFile.Template

mutual

/-- The outline as it stands before processing. -/
def Outline.pieces : Outline Insert → Outline Piece
  | .nil => .nil
  | .leaf insert next => .leaf (.written insert) next.pieces
  | .loop header body next => .loop header body.pieces next.pieces
  | .conditional condition body arms next =>
    .conditional condition body.pieces arms.pieces next.pieces

/-- The same of further arms. -/
def Arms.pieces : Arms Insert → Arms Piece
  | .nil => .nil
  | .cons condition body rest => .cons condition body.pieces rest.pieces

end

mutual

/-- The outline is written as the same text. -/
theorem Outline.text_pieces :
    ∀ outline : Outline Insert, outline.pieces.text Piece.text = outline.text Insert.text
  | .nil => rfl
  | .leaf insert next => by
    rw [Outline.pieces, Outline.text, Outline.text, Outline.text_pieces next, Piece.text]
  | .loop header body next => by
    rw [Outline.pieces, Outline.text, Outline.text, Outline.text_pieces body,
      Outline.text_pieces next]
  | .conditional condition body arms next => by
    rw [Outline.pieces, Outline.text, Outline.text, Outline.text_pieces body, Arms.text_pieces arms,
      Outline.text_pieces next]

/-- The same of further arms. -/
theorem Arms.text_pieces : ∀ arms : Arms Insert, arms.pieces.text Piece.text = arms.text Insert.text
  | .nil => rfl
  | .cons condition body rest => by
    rw [Arms.pieces, Arms.text, Arms.text, Outline.text_pieces body, Arms.text_pieces rest]

end

mutual

/-- The outline has the same normal form. -/
theorem Outline.normal_pieces (template : ProcessedTemplate) :
    ∀ outline : Outline Insert,
      outline.pieces.normal (Piece.place template) = outline.normal Insert.place
  | .nil => rfl
  | .leaf insert next => by
    rw [Outline.pieces, Outline.normal, Outline.normal, Outline.normal_pieces template next,
      Piece.place]
  | .loop header body next => by
    rw [Outline.pieces, Outline.normal, Outline.normal, Outline.normal_pieces template body,
      Outline.normal_pieces template next]
  | .conditional condition body arms next => by
    rw [Outline.pieces, Outline.normal, Outline.normal, Outline.normal_pieces template body,
      Arms.normal_pieces template arms, Outline.normal_pieces template next]

/-- The same of further arms. -/
theorem Arms.normal_pieces (template : ProcessedTemplate) :
    ∀ arms : Arms Insert, arms.pieces.normal (Piece.place template) = arms.normal Insert.place
  | .nil => rfl
  | .cons condition body rest => by
    rw [Arms.pieces, Arms.normal, Arms.normal, Outline.normal_pieces template body,
      Arms.normal_pieces template rest]

end

mutual

/-- The outline is well-formed. -/
theorem Outline.WellFormed.pieces (template : ProcessedTemplate) :
    ∀ {outline : Outline Insert}, outline.WellFormed Insert.WellFormed →
      outline.pieces.WellFormed (Piece.WellFormed template)
  | .nil, _ => trivial
  | .leaf _ _, h => ⟨h.1, Outline.WellFormed.pieces template h.2⟩
  | .loop _ _ _, h =>
    ⟨h.1, Outline.WellFormed.pieces template h.2.1, Outline.WellFormed.pieces template h.2.2⟩
  | .conditional _ _ _ _, h =>
    ⟨h.1, Outline.WellFormed.pieces template h.2.1, Arms.WellFormed.pieces template h.2.2.1,
      Outline.WellFormed.pieces template h.2.2.2⟩

/-- The same of further arms. -/
theorem Arms.WellFormed.pieces (template : ProcessedTemplate) :
    ∀ {arms : Arms Insert}, arms.WellFormed Insert.WellFormed →
      arms.pieces.WellFormed (Piece.WellFormed template)
  | .nil, _ => trivial
  | .cons _ _ _, h =>
    ⟨h.1, Outline.WellFormed.pieces template h.2.1, Arms.WellFormed.pieces template h.2.2⟩

end

mutual

/-- The outline has the same chains of loops. -/
theorem Outline.loopChain_pieces :
    ∀ (enclosing : Nat) (outline : Outline Insert),
      outline.pieces.loopChain enclosing = outline.loopChain enclosing
  | _, .nil => rfl
  | enclosing, .leaf _ next => Outline.loopChain_pieces enclosing next
  | enclosing, .loop header body next => by
    rw [Outline.pieces, Outline.loopChain, Outline.loopChain,
      Outline.loopChain_pieces (enclosing + 1) body, Outline.loopChain_pieces enclosing next]
  | enclosing, .conditional condition body arms next => by
    rw [Outline.pieces, Outline.loopChain, Outline.loopChain, Outline.loopChain_pieces 0 body,
      Arms.loopChain_pieces arms, Outline.loopChain_pieces enclosing next]

/-- The same of further arms. -/
theorem Arms.loopChain_pieces : ∀ arms : Arms Insert, arms.pieces.loopChain = arms.loopChain
  | .nil => rfl
  | .cons condition body rest => by
    rw [Arms.pieces, Arms.loopChain, Arms.loopChain, Outline.loopChain_pieces 0 body,
      Arms.loopChain_pieces rest]

end

mutual

/-- In a text of markup every run of an outline is markup. -/
theorem Outline.clear_of_isMarkup :
    ∀ {run : Text} {outline : Outline Piece}, IsMarkup (run ++ outline.text Piece.text) →
      outline.Clear run
  | run, .nil, h => by
    rw [Outline.text, List.append_nil] at h
    exact h
  | run, .leaf piece next, h => by
    rw [Outline.text, ← List.append_assoc] at h
    have hrun := h.of_isInfix
      ((List.prefix_append run piece.text).trans (List.prefix_append _ _)).isInfix
    have hnext : IsMarkup ([] ++ next.text Piece.text) :=
      h.of_isInfix (List.suffix_append _ _).isInfix
    match piece, h with
    | .written (.char c), h =>
      rw [Outline.Clear]
      exact Outline.clear_of_isMarkup h
    | .written (.interpolation _), _ => exact ⟨hrun, Outline.clear_of_isMarkup hnext⟩
    | .written (.rawMarkup _), _ => exact ⟨hrun, Outline.clear_of_isMarkup hnext⟩
    | .mark _, _ => exact ⟨hrun, Outline.clear_of_isMarkup hnext⟩
  | run, .loop header body next, h => by
    rw [Outline.text] at h
    have hbody : IsMarkup ([] ++ body.text Piece.text) :=
      h.of_isInfix ⟨run ++ header.token, eachClosing ++ next.text Piece.text, by simp⟩
    have hnext : IsMarkup ([] ++ next.text Piece.text) :=
      h.of_isInfix ((List.suffix_append _ _).trans (List.suffix_append _ _)).isInfix
    exact ⟨h.of_isInfix (List.prefix_append _ _).isInfix, Outline.clear_of_isMarkup hbody,
      Outline.clear_of_isMarkup hnext⟩
  | run, .conditional condition body arms next, h => by
    rw [Outline.text] at h
    have hbody : IsMarkup ([] ++ body.text Piece.text) :=
      h.of_isInfix ⟨run ++ ifToken condition,
        arms.text Piece.text ++ ifClosing ++ next.text Piece.text, by simp⟩
    have harms : IsMarkup (arms.text Piece.text) :=
      h.of_isInfix ⟨run ++ ifToken condition ++ body.text Piece.text,
        ifClosing ++ next.text Piece.text, by simp⟩
    have hnext : IsMarkup ([] ++ next.text Piece.text) :=
      h.of_isInfix ((List.suffix_append _ _).trans (List.suffix_append _ _)).isInfix
    exact ⟨h.of_isInfix (List.prefix_append _ _).isInfix, Outline.clear_of_isMarkup hbody,
      Arms.clear_of_isMarkup harms, Outline.clear_of_isMarkup hnext⟩

/-- The same of further arms. -/
theorem Arms.clear_of_isMarkup :
    ∀ {arms : Arms Piece}, IsMarkup (arms.text Piece.text) → arms.Clear
  | .nil, _ => trivial
  | .cons condition body rest, h => by
    rw [Arms.text] at h
    have hbody : IsMarkup ([] ++ body.text Piece.text) :=
      h.of_isInfix ⟨armToken condition, rest.text Piece.text, by simp⟩
    exact ⟨Outline.clear_of_isMarkup hbody,
      Arms.clear_of_isMarkup (h.of_isInfix (List.suffix_append _ _).isInfix)⟩

end

/-- A template written from an outline shows the outline when it is processed: every directive is
found, with its expressions, names and arms, and stands where it was written. -/
theorem outline_process (settings : Settings) {outline : Outline Insert}
    (hwell : outline.WellFormed Insert.WellFormed)
    (hfits : (outline.text Insert.text).byteSize < Placeholder.indexBound)
    (habsent : Placeholder.Absent (outline.text Insert.text))
    (htagless : isTagless (outline.text Insert.text) = true) (hlimit : 1 ≤ settings.passLimit)
    (hchain : outline.loopChain 0 ≤ settings.passLimit) :
    (process settings (outline.text Insert.text)).outline = outline.normal Insert.place := by
  have hordered := (ordered_process settings habsent).1
  have hsize : (process settings (outline.text Insert.text)).directives.size ≤
      Placeholder.indexBound := by
    have hle := size_directives_le settings (outline.text Insert.text)
    have hbytes := Text.length_le_byteSize (outline.text Insert.text)
    omega
  let fragment := processFragment settings.passLimit (outline.text Insert.text) #[]
  have hpieces : outline.pieces.Fits (process settings (outline.text Insert.text))
      settings.passLimit
      (braces (outline.text Insert.text)) := by
    refine ⟨hwell.pieces _, Outline.clear_of_isMarkup ?_, ?_, ?_⟩
    · rw [List.nil_append, Outline.text_pieces]
      exact ⟨habsent, htagless⟩
    · rw [Outline.text_pieces]
    · rw [Outline.loopChain_pieces]
      exact hchain
  have hgrows : (processAt settings.passLimit (braces (outline.text Insert.text))
      (outline.pieces.text Piece.text) #[]).2.toList <+:
        (process settings (outline.text Insert.text)).directives.toList := by
    rw [Outline.text_pieces]
    exact (sound_replaceComponents settings.runtimeAttribute).grows fragment.1 fragment.2
  obtain ⟨other, htext, hother, hnormal, hflat⟩ :=
    exists_plain_processAt hordered hsize hlimit _ hpieces hgrows
  rw [Outline.text_pieces] at htext
  have hcontent : (process settings (outline.text Insert.text)).content =
      other.text Piece.text := by
    have htag := hflat.isTagless_text hother.clear
    rw [List.nil_append, ← htext] at htag
    rw [← htext]
    exact congrArg Prod.fst
      (replaceComponents_of_isTagless settings.runtimeAttribute htag fragment.2)
  rw [ProcessedTemplate.outline, hcontent,
    hflat.read_text hordered hsize hother.wellFormed hother.clear, hnormal, Outline.normal_pieces]

/-- A loop in a conditional with two further arms is seen again, without the blanks around its
parts. -/
theorem outline_process_nested :
    let header : LoopHeader := ⟨['l'], ['i'], some ['j']⟩
    let last : Outline Insert := .leaf (.rawMarkup ['m']) .nil
    let inside : Outline Insert := .leaf (.char ' ') (.leaf (.interpolation [' ', 'e']) .nil)
    let outline : Outline Insert :=
      .conditional ['c', ' '] (.loop header inside .nil)
        (.cons (some [' ']) last (.cons none .nil .nil)) (.leaf (.char '!') .nil)
    outline.WellFormed Insert.WellFormed ∧
      (outline.text Insert.text).byteSize < Placeholder.indexBound ∧
      Placeholder.Absent (outline.text Insert.text) ∧ isTagless (outline.text Insert.text) = true ∧
      outline.loopChain 0 ≤ 1 ∧
      (process { passLimit := 1 } (outline.text Insert.text)).outline =
        .conditional ['c'] (.loop header (.leaf (.interpolation ['e']) .nil) .nil)
          (.cons (some []) last (.cons none .nil .nil)) (.leaf (.char '!') .nil) := by
  intro header last inside outline
  have hbinding : NoBinding ['l'] := by
    intro before space after h
    have hlength := congrArg List.length h
    simp only [List.length_append, List.length_cons, List.length_nil] at hlength
    omega
  have hindex : ∀ name ∈ header.indexName, IsName name := by
    intro name hm
    cases hm
    exact ⟨by decide, by decide, by decide, by decide⟩
  have hheader : header.WellFormed :=
    ⟨⟨by decide, by decide, by decide, by decide⟩,
      ⟨by decide, by decide, by decide, by decide⟩, hindex,
      hbinding, by decide⟩
  have hinside : inside.WellFormed Insert.WellFormed :=
    ⟨⟨by decide, by decide⟩, ⟨by decide, ⟨by decide, by decide⟩, by decide⟩, trivial⟩
  have harm : ∀ text ∈ some [' '], BraceFree text := by
    intro text hm
    cases hm
    exact ⟨by decide, by decide⟩
  have hotherwise : ∀ text ∈ (none : Option Text), BraceFree text := by
    intro text hm
    cases hm
  have hlast : last.WellFormed Insert.WellFormed := ⟨⟨by decide, by decide, by decide⟩, trivial⟩
  have hwell : outline.WellFormed Insert.WellFormed :=
    ⟨⟨by decide, by decide⟩, ⟨hheader, hinside, trivial⟩,
      ⟨harm, hlast, hotherwise, trivial, trivial⟩, ⟨by decide, by decide⟩, trivial⟩
  have hfits : (outline.text Insert.text).byteSize < Placeholder.indexBound := by decide
  have habsent : Placeholder.Absent (outline.text Insert.text) :=
    Placeholder.absent_of_references_eq_nil (by decide)
  have htagless : isTagless (outline.text Insert.text) = true := by decide
  have hchain : outline.loopChain 0 ≤ 1 := by decide
  exact ⟨hwell, hfits, habsent, htagless, hchain,
    outline_process { passLimit := 1 } hwell hfits habsent htagless (by decide) hchain⟩

end ComponentFile.Template
