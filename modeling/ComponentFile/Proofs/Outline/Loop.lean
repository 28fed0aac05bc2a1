import ComponentFile.Proofs.Outline.Marking
import ComponentFile.Proofs.Template.Loop

/-!
# The innermost loops of an outline

The text of an outline without conditionals is cut at the tokens that end loops. Up to such a token,
the last token that starts a loop is the one it ends, if that loop has no loop in its body; else the
body has already been cut off, and no token that starts a loop is left. So one pass picks the loops
without loops in them.
-/

namespace ComponentFile

namespace Text

private theorem pieces_of_passes {mark text : Text} (h : Template.Passes (after? mark) text) :
    pieces mark text = [text] := by
  induction text with
  | nil => rfl
  | cons c text ih =>
    obtain ⟨hfirst, hrest⟩ := Template.passes_cons_iff.mp h
    have hnone : startsWith mark (c :: text) = false := by
      have hfirst := hfirst []
      rw [List.append_nil] at hfirst
      rw [startsWith, hfirst]
      rfl
    have htail : piecesFrom mark 0 text = [text] := ih hrest
    rw [pieces, piecesFrom, hnone, if_neg Bool.false_ne_true, htail]

private theorem piecesFrom_skip (mark text rest : Text) :
    piecesFrom mark text.length (text ++ rest) = piecesFrom mark 0 rest := by
  induction text with
  | nil => rfl
  | cons c text ih => exact ih

private theorem pieces_append {mark text : Text} (hmark : mark ≠ [])
    (h : Template.Passes (after? mark) text) (rest : Text) :
    pieces mark (text ++ mark ++ rest) = text :: pieces mark rest := by
  induction text with
  | nil =>
    obtain ⟨m, tail, rfl⟩ := List.exists_cons_of_ne_nil hmark
    have hstart : startsWith (m :: tail) (m :: tail ++ rest) = true := by
      rw [startsWith, after?_append]
      rfl
    rw [List.cons_append] at hstart
    rw [List.nil_append, List.cons_append, pieces, piecesFrom, if_pos hstart]
    exact congrArg _ (piecesFrom_skip _ tail rest)
  | cons c text ih =>
    obtain ⟨hfirst, hrest⟩ := Template.passes_cons_iff.mp h
    have hnone : startsWith mark (c :: (text ++ mark ++ rest)) = false := by
      have hfirst := hfirst (mark ++ rest)
      rw [List.cons_append, ← List.append_assoc] at hfirst
      rw [startsWith, hfirst]
      rfl
    have htail : piecesFrom mark 0 (text ++ mark ++ rest) = text :: pieces mark rest := ih hrest
    rw [List.cons_append, List.cons_append, pieces, piecesFrom, hnone,
      if_neg Bool.false_ne_true, htail]

/-- A text without the mark has no last one. -/
theorem cutLast?_of_passes {mark text : Text} (hmark : mark ≠ [])
    (h : Template.Passes (after? mark) text) : cutLast? mark text = none := by
  induction text with
  | nil =>
    obtain ⟨m, tail, rfl⟩ := List.exists_cons_of_ne_nil hmark
    rfl
  | cons c text ih =>
    obtain ⟨hfirst, hrest⟩ := Template.passes_cons_iff.mp h
    have hnone := hfirst []
    rw [List.append_nil] at hnone
    rw [cutLast?, ih hrest]
    simp only [hnone, Option.map_none]

/-- The last mark cuts a text in two. -/
theorem cutLast?_append {m : Char} {tail after : Text}
    (h : Template.Passes (after? (m :: tail)) (tail ++ after)) (before : Text) :
    cutLast? (m :: tail) (before ++ (m :: tail) ++ after) = some (before, after) := by
  induction before with
  | nil =>
    have hfirst := after?_append (m :: tail) after
    rw [List.cons_append] at hfirst
    rw [List.nil_append, List.cons_append, cutLast?, cutLast?_of_passes (List.cons_ne_nil _ _) h]
    simp only [hfirst, Option.map_some]
  | cons c before ih =>
    rw [List.cons_append, List.cons_append, cutLast?, ih]

end Text

namespace Template

/-! ## Cutting at tokens -/

/-- A loop without loops in its body ends at the next closing token, whatever its header says. -/
theorem closedLoop_eachKeyword {inner : Text} (hfree : BraceFree inner)
    (hspace : ∀ c ∈ inner.head?, isSpace c = true) {body : Text}
    (hbody : Passes (Text.after? eachKeyword) body) (before : Text) :
    closedLoop (before ++ (eachKeyword ++ inner ++ closing) ++ body) =
      Segment.plain before ++
        [.item (eachKeyword ++ inner ++ closing ++ body ++ eachClosing)
          { header := inner, body }] := by
  have htail : Passes (Text.after? eachKeyword)
      (['{', '@', 'e', 'a', 'c', 'h'] ++ (inner ++ closing ++ body)) := by
    have hfree : '{' ∉ ['@', 'e', 'a', 'c', 'h'] ++ inner := by
      rw [List.mem_append, not_or]
      exact ⟨by decide, hfree.1⟩
    have hne : ['@', 'e', 'a', 'c', 'h'] ++ inner ≠ [] := List.cons_ne_nil _ _
    have hpass := (atOpening_eachKeyword.passes_tail hne hfree).append hbody
    simpa only [List.cons_append, List.nil_append, List.append_assoc] using hpass
  have hcut : Text.cutLast? eachKeyword (before ++ (eachKeyword ++ inner ++ closing) ++ body) =
      some (before, inner ++ closing ++ body) := by
    have hcut := Text.cutLast?_append htail before
    simpa only [eachKeyword, List.append_assoc] using hcut
  have hhead : header? eachKeyword (eachKeyword ++ (inner ++ closing ++ body)) =
      some (inner, body) := by
    have hhead := header?_append eachKeyword hfree.2 hspace body
    simpa only [List.append_assoc] using hhead
  simp only [closedLoop, hcut, hhead, Option.bind_eq_bind, Option.bind_some, pure]

/-- A loop without loops in its body ends at the next closing token. -/
private theorem closedLoop_append {header : LoopHeader} (hheader : header.WellFormed) {body : Text}
    (hbody : Passes (Text.after? eachKeyword) body) (before : Text) :
    closedLoop (before ++ header.token ++ body) =
      Segment.plain before ++
        [.item (header.token ++ body ++ eachClosing) { header := header.inner, body }] :=
  closedLoop_eachKeyword hheader.braceFree (by simp [LoopHeader.inner, isSpace]) hbody before

/-- Without a token that starts a loop, the text up to a closing token is plain. -/
theorem closedLoop_of_passes {text : Text} (h : Passes (Text.after? eachKeyword) text) :
    closedLoop text = Segment.plain (text ++ eachClosing) := by
  have hcut := Text.cutLast?_of_passes (List.cons_ne_nil '{' _) h
  have hcut : Text.cutLast? eachKeyword text = none := hcut
  simp only [closedLoop, hcut, Option.bind_eq_bind, Option.bind_none]

/-- A text is read up to its first closing token and from there on. -/
theorem loops_append {text : Text} (h : Passes (Text.after? eachClosing) text) (rest : Text) :
    loops (text ++ eachClosing ++ rest) = closedLoop text ++ loops rest := by
  have hpieces := Text.pieces_append (List.cons_ne_nil '{' _) h rest
  have hpieces : Text.pieces eachClosing (text ++ eachClosing ++ rest) =
      text :: Text.pieces eachClosing rest := hpieces
  obtain ⟨piece, others, hothers⟩ :=
    List.exists_cons_of_ne_nil (Text.piecesFrom_ne_nil eachClosing 0 rest)
  have hothers : Text.pieces eachClosing rest = piece :: others := hothers
  rw [loops, loops, hpieces, hothers, loopsOf]
  exact List.cons_ne_nil _ _

/-- A text without a closing token is plain. -/
theorem loops_of_passes {text : Text} (h : Passes (Text.after? eachClosing) text) :
    loops text = Segment.plain text := by
  rw [loops, Text.pieces_of_passes h, loopsOf]

/-! ## Reading outlines -/

section

variable {template : ProcessedTemplate}

/-- No piece holds the token that ends a loop. -/
theorem Piece.passes_eachClosing {piece : Piece} (h : piece.WellFormed template) :
    Passes (Text.after? eachClosing) piece.text := by
  cases piece with
  | written insert => exact Insert.passes atOpening_eachClosing atSigil_eachClosing (fun _ => rfl) h
  | mark directive => exact atOpening_eachClosing.passes_of_not_mem (not_mem_render directive)

/-- No piece holds the keyword of loops. -/
theorem Piece.passes_eachKeyword {piece : Piece} (h : piece.WellFormed template) :
    Passes (Text.after? eachKeyword) piece.text := by
  cases piece with
  | written insert => exact Insert.passes atOpening_eachKeyword atSigil_eachKeyword (fun _ => rfl) h
  | mark directive => exact atOpening_eachKeyword.passes_of_not_mem (not_mem_render directive)

/-- A text of leaves holds neither. -/
theorem Outline.Flat.passes {keep : Piece → Prop} {outline : Outline Piece} (h : outline.Flat keep)
    (hwell : outline.WellFormed (Piece.WellFormed template)) :
    Passes (Text.after? eachClosing) (outline.text Piece.text) ∧
      Passes (Text.after? eachKeyword) (outline.text Piece.text) := by
  induction h with
  | nil => exact ⟨passes_nil _, passes_nil _⟩
  | leaf _ _ ihnext =>
    obtain ⟨hclosing, hkeyword⟩ := ihnext hwell.2
    exact ⟨(Piece.passes_eachClosing hwell.1).append hclosing,
      (Piece.passes_eachKeyword hwell.1).append hkeyword⟩

/-- Loops without loops in their bodies are picked, and read from their text. -/
def pickLoop : Picking Loop
  | .loop header body _ =>
    if body.hasLoop then none else some { header := header.inner, body := body.text Piece.text }
  | .nil | .leaf _ _ | .conditional _ _ _ _ => none

/-- After any text without tokens of loops, the text `rest` is read into the segments. -/
def ReadsAs (rest : Text) (segments : List (Segment Loop)) : Prop :=
  ∀ before, Passes (Text.after? eachClosing) before → Passes (Text.after? eachKeyword) before →
    loops (before ++ rest) = Segment.plain before ++ segments

/-- The text of an outline is read into its innermost loops. The text before it may hold tokens that
start loops around the outline, as long as a loop in the outline ends first. -/
private theorem loops_outline {keep : Piece → Prop} {outline : Outline Piece}
    (hbare : outline.Bare keep) (hwell : outline.WellFormed (Piece.WellFormed template))
    {before rest : Text} {segments : List (Segment Loop)} (hrest : ReadsAs rest segments)
    (hclosing : Passes (Text.after? eachClosing) before)
    (hkeyword : Passes (Text.after? eachKeyword) before ∨ outline.hasLoop = true) :
    loops (before ++ outline.text Piece.text ++ rest) =
      Segment.plain before ++ outline.segments pickLoop ++ segments := by
  induction hbare generalizing before rest segments with
  | nil =>
    rcases hkeyword with hkeyword | hloop
    · simpa only [Outline.text, Outline.segments, List.append_nil]
        using hrest before hclosing hkeyword
    · cases hloop
  | @leaf piece next _ _ ihnext =>
    have hnext := ihnext hwell.2 hrest (hclosing.append (Piece.passes_eachClosing hwell.1))
      (hkeyword.imp (fun h => h.append (Piece.passes_eachKeyword hwell.1)) id)
    simpa only [Outline.text, Outline.segments, pickLoop, Segment.plain, List.map_append,
      List.append_assoc] using hnext
  | @loop header body next hbody _ ihbody ihnext =>
    obtain ⟨hheader, hbodyWell, hnextWell⟩ := hwell
    -- after the loop nothing is left of the text before it
    have hafter : loops (next.text Piece.text ++ rest) = next.segments pickLoop ++ segments :=
      ihnext hnextWell hrest (passes_nil _) (Or.inl (passes_nil _))
    have htoken : Passes (Text.after? eachClosing) header.token :=
      hheader.passes atOpening_eachClosing fun _ => rfl
    cases hloop : body.hasLoop with
    | false =>
      obtain ⟨hbodyClosing, hbodyKeyword⟩ := (hbody.flat hloop).passes hbodyWell
      have hcut := loops_append ((hclosing.append htoken).append hbodyClosing)
        (next.text Piece.text ++ rest)
      rw [closedLoop_append hheader hbodyKeyword, hafter] at hcut
      simpa only [Outline.text, Outline.segments, pickLoop, hloop, Bool.false_eq_true, if_false,
        List.append_assoc] using hcut
    | true =>
      have hend : ReadsAs (eachClosing ++ (next.text Piece.text ++ rest))
          (Segment.plain eachClosing ++ (next.segments pickLoop ++ segments)) := by
        intro front hfrontClosing hfrontKeyword
        rw [← List.append_assoc, loops_append hfrontClosing,
          closedLoop_of_passes hfrontKeyword, hafter]
        simp only [Segment.plain, List.map_append, List.append_assoc]
      have hall := ihbody hbodyWell hend (hclosing.append htoken) (Or.inr hloop)
      simpa only [Outline.text, Outline.segments, pickLoop, hloop, if_true, Segment.plain,
        List.map_append, List.append_assoc] using hall

/-- The loops of the text of an outline are its innermost loops. -/
theorem loops_text {keep : Piece → Prop} {outline : Outline Piece} (hbare : outline.Bare keep)
    (hwell : outline.WellFormed (Piece.WellFormed template)) :
    loops (outline.text Piece.text) = outline.segments pickLoop := by
  have hend : ReadsAs [] [] := by
    intro before hclosing _
    rw [List.append_nil, List.append_nil, loops_of_passes hclosing]
  have hall := loops_outline hbare hwell hend (passes_nil _) (Or.inl (passes_nil _))
  simpa only [Segment.plain, List.map_nil, List.nil_append, List.append_nil] using hall

end

end Template

end ComponentFile
