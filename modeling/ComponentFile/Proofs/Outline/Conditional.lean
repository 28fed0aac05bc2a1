import ComponentFile.Proofs.Outline.Marking
import ComponentFile.Proofs.Template.Conditional

/-!
# The conditionals of an outline

One reading of the text of an outline finds its outermost conditionals, also those in loops. Inside
an open conditional the text of an outline is taken over as it stands: every conditional in it
closes again, so the number of open ones is the same after it (`conditionalsFrom_text`). What is
left are the tokens that belong to the outermost conditional itself.
-/

namespace ComponentFile.Template

/-! ## The tokens -/

/-- The keyword of conditionals and a header open one. -/
theorem conditionalToken_ifKeyword {inner : Text} (hfree : '}' ∉ inner)
    (hspace : ∀ c ∈ inner.head?, isSpace c = true) (rest : Text) :
    conditionalToken (ifKeyword ++ inner ++ closing ++ rest) =
      some (.opened inner.trim, (ifKeyword ++ inner ++ closing).length) := by
  have hheader := header?_append ifKeyword hfree hspace rest
  have hstart : Text.startsWith ifClosing (ifKeyword ++ inner ++ closing ++ rest) = false := rfl
  rw [conditionalToken, hstart, if_neg Bool.false_ne_true]
  simp only [hheader, headerLength, List.length_append]

/-- The token of a conditional opens one. -/
theorem conditionalToken_ifToken {condition : Text} (h : BraceFree condition) (rest : Text) :
    conditionalToken (ifToken condition ++ rest) =
      some (.opened condition.trim, (ifToken condition).length) := by
  have hfree : '}' ∉ ' ' :: condition := by
    rw [List.mem_cons, not_or]
    exact ⟨by decide, h.2⟩
  have htrim : Text.trim (' ' :: condition) = condition.trim :=
    Text.trim_cons_of_blank rfl condition
  rw [ifToken, conditionalToken_ifKeyword hfree (by simp [isSpace]), htrim]

/-- The keyword of further arms and a header start one, if the header can be read. -/
theorem conditionalToken_elseKeyword {inner : Text} {token : ConditionalToken} (hfree : '}' ∉ inner)
    (hspace : ∀ c ∈ inner.head?, isSpace c = true) (hbranch : branchOf? inner = some token)
    (rest : Text) :
    conditionalToken (elseKeyword ++ inner ++ closing ++ rest) =
      some (token, (elseKeyword ++ inner ++ closing).length) := by
  have hheader := header?_append elseKeyword hfree hspace rest
  have hstart : Text.startsWith ifClosing (elseKeyword ++ inner ++ closing ++ rest) = false := rfl
  have hif : header? ifKeyword (elseKeyword ++ inner ++ closing ++ rest) = none := rfl
  have helseIf : header? elseIfKeyword (elseKeyword ++ inner ++ closing ++ rest) = none := by
    cases inner with
    | nil => rfl
    | cons c inner =>
      have hc : 'i' ≠ c := by
        rintro rfl
        exact absurd (hspace _ rfl) (by decide)
      apply header?_eq_none
      simp only [elseIfKeyword, elseKeyword, List.cons_append, List.nil_append, Text.after?,
        if_true, if_neg hc]
  rw [conditionalToken, hstart, if_neg Bool.false_ne_true, hif, helseIf]
  simp only [hheader, hbranch, Option.map_some, headerLength, List.length_append]

/-- The token of a further arm starts one. -/
theorem conditionalToken_armToken {condition : Option Text} (h : ∀ text ∈ condition, BraceFree text)
    (rest : Text) :
    conditionalToken (armToken condition ++ rest) =
      some (.branch (condition.map Text.trim), (armToken condition).length) := by
  cases condition with
  | none =>
    have htoken := conditionalToken_elseKeyword (List.not_mem_nil (a := '}')) (by simp)
      (show branchOf? [] = some (.branch none) from rfl) rest
    rwa [List.append_nil] at htoken
  | some condition =>
    have hfree : '}' ∉ [' ', 'i', 'f', ' '] ++ condition := by
      rw [List.mem_append, not_or]
      exact ⟨by decide, (h condition rfl).2⟩
    have htrim : Text.trim (' ' :: condition) = condition.trim :=
      Text.trim_cons_of_blank rfl condition
    have hbranch : branchOf? ([' ', 'i', 'f', ' '] ++ condition) =
        some (.branch (some condition.trim)) := by
      rw [← htrim]
      rfl
    exact conditionalToken_elseKeyword hfree (by simp [isSpace]) hbranch rest

/-- The closing token closes a conditional. -/
theorem conditionalToken_ifClosing (rest : Text) :
    conditionalToken (ifClosing ++ rest) = some (.closed, ifClosing.length) := by
  have hstart : Text.startsWith ifClosing (ifClosing ++ rest) = true := by
    rw [Text.startsWith, Text.after?_append]
    rfl
  rw [conditionalToken, if_pos hstart]

/-! ## Reading tokens and text -/

/-- Adding text twice is adding it in a row. -/
@[simp] theorem Frame.extend_extend (frame : Frame) (first second : Text) :
    (frame.extend first).extend second = frame.extend (second ++ first) := by
  cases frame with
  | mk token condition body arms => cases arms <;> simp [extend]

/-- Adding nothing changes nothing. -/
@[simp] theorem Frame.extend_nil (frame : Frame) : frame.extend [] = frame := by
  cases frame with
  | mk token condition body arms => cases arms <;> rfl

/-- Characters to be skipped are dropped. -/
theorem conditionalsFrom_skip (opened : Option (Frame × Nat)) (text rest : Text) :
    conditionalsFrom opened text.length (text ++ rest) = conditionalsFrom opened 0 rest := by
  induction text with
  | nil => rfl
  | cons c text ih =>
    rw [← ih, List.length_cons, List.cons_append]
    cases opened <;> rfl

/-- Outside a conditional, text without tokens is plain. -/
theorem conditionalsFrom_none_of_passes {text : Text} (h : Passes conditionalToken text)
    (rest : Text) :
    conditionalsFrom none 0 (text ++ rest) =
      Segment.plain text ++ conditionalsFrom none 0 rest := by
  induction text with
  | nil => rfl
  | cons c text ih =>
    obtain ⟨hfirst, hrest⟩ := passes_cons_iff.mp h
    have hnone := hfirst rest
    rw [List.cons_append] at hnone ⊢
    rw [conditionalsFrom, hnone, ih hrest]
    rfl

/-- Inside a conditional, text without tokens is added to the body. -/
theorem conditionalsFrom_some_of_passes {text : Text} (h : Passes conditionalToken text)
    (frame : Frame) (nested : Nat) (rest : Text) :
    conditionalsFrom (some (frame, nested)) 0 (text ++ rest) =
      conditionalsFrom (some (frame.extend text.reverse, nested)) 0 rest := by
  induction text generalizing frame with
  | nil => rw [List.reverse_nil, Frame.extend_nil, List.nil_append]
  | cons c text ih =>
    obtain ⟨hfirst, hrest⟩ := passes_cons_iff.mp h
    have hnone := hfirst rest
    rw [List.cons_append] at hnone ⊢
    rw [conditionalsFrom, ih hrest, Frame.extend_extend, List.reverse_cons]
    exact hnone

/-- Outside a conditional, an opening token starts one. -/
theorem conditionalsFrom_none_token {token rest condition : Text} (hne : token ≠ [])
    (h : conditionalToken (token ++ rest) = some (.opened condition, token.length)) :
    conditionalsFrom none 0 (token ++ rest) =
      conditionalsFrom (some (⟨token, condition, [], []⟩, 0)) 0 rest := by
  obtain ⟨c, tail, rfl⟩ := List.exists_cons_of_ne_nil hne
  rw [List.cons_append] at h ⊢
  rw [conditionalsFrom, h]
  simp only [List.length_cons, Nat.add_sub_cancel, conditionalsFrom_skip, List.take_succ_cons,
    List.take_left]

/-- Outside a conditional, the token of a conditional starts one. -/
private theorem conditionalsFrom_none_opened {condition : Text} (h : BraceFree condition)
    (rest : Text) :
    conditionalsFrom none 0 (ifToken condition ++ rest) =
      conditionalsFrom (some (⟨ifToken condition, condition.trim, [], []⟩, 0)) 0 rest :=
  conditionalsFrom_none_token (List.cons_ne_nil _ _) (conditionalToken_ifToken h rest)

/-- Inside a conditional, tokens that belong to a nested one are added to the body; `inside` is the
number of conditionals open after the token. -/
theorem conditionalsFrom_some_nested {token rest : Text} {read : ConditionalToken}
    {nested inside : Nat} (hne : token ≠ [])
    (h : conditionalToken (token ++ rest) = some (read, token.length))
    (hinside : (∃ condition, read = .opened condition ∧ inside = nested + 1) ∨
      (∃ condition, read = .branch condition ∧ nested ≠ 0 ∧ inside = nested) ∨
      (read = .closed ∧ nested = inside + 1))
    (frame : Frame) :
    conditionalsFrom (some (frame, nested)) 0 (token ++ rest) =
      conditionalsFrom (some (frame.extend token.reverse, inside)) 0 rest := by
  obtain ⟨c, tail, rfl⟩ := List.exists_cons_of_ne_nil hne
  rw [List.cons_append] at h ⊢
  rcases hinside with ⟨condition, rfl, rfl⟩ | ⟨condition, rfl, hnested, rfl⟩ | ⟨rfl, rfl⟩
  · rw [conditionalsFrom.eq_def]
    simp only [h, List.length_cons, Nat.add_sub_cancel, conditionalsFrom_skip, List.take_succ_cons,
      List.take_left]
  · obtain ⟨depth, rfl⟩ := Nat.exists_eq_succ_of_ne_zero hnested
    rw [conditionalsFrom.eq_def]
    simp only [h, List.length_cons, Nat.add_sub_cancel, conditionalsFrom_skip, List.take_succ_cons,
      List.take_left]
  · rw [conditionalsFrom.eq_def]
    simp only [h, List.length_cons, Nat.add_sub_cancel, conditionalsFrom_skip, List.take_succ_cons,
      List.take_left]

/-- Directly inside the outermost conditional, a branch token starts an arm. -/
theorem conditionalsFrom_some_token {token rest : Text} {condition : Option Text} (hne : token ≠ [])
    (h : conditionalToken (token ++ rest) = some (.branch condition, token.length))
    (frame : Frame) :
    conditionalsFrom (some (frame, 0)) 0 (token ++ rest) =
      conditionalsFrom (some (frame.addArm token condition, 0)) 0 rest := by
  obtain ⟨c, tail, rfl⟩ := List.exists_cons_of_ne_nil hne
  rw [List.cons_append] at h ⊢
  rw [conditionalsFrom.eq_def]
  simp only [h, List.length_cons, Nat.add_sub_cancel, conditionalsFrom_skip, List.take_succ_cons,
    List.take_left]

/-- Directly inside the outermost conditional, the token of an arm starts it. -/
private theorem conditionalsFrom_some_branch {condition : Option Text}
    (h : ∀ text ∈ condition, BraceFree text) (frame : Frame) (rest : Text) :
    conditionalsFrom (some (frame, 0)) 0 (armToken condition ++ rest) =
      conditionalsFrom (some (frame.addArm (armToken condition) (condition.map Text.trim), 0)) 0
        rest := by
  have hne : armToken condition ≠ [] := by cases condition <;> exact List.cons_ne_nil _ _
  exact conditionalsFrom_some_token hne (conditionalToken_armToken h rest) frame

/-- Directly inside the outermost conditional, a closing token completes it. -/
theorem conditionalsFrom_some_closed (frame : Frame) (rest : Text) :
    conditionalsFrom (some (frame, 0)) 0 (ifClosing ++ rest) =
      .item (frame.source ++ ifClosing) frame.complete :: conditionalsFrom none 0 rest := by
  have htoken := conditionalToken_ifClosing rest
  obtain ⟨tail, htail⟩ : ∃ tail, ifClosing = '{' :: tail := ⟨_, rfl⟩
  rw [htail] at htoken ⊢
  rw [List.cons_append] at htoken ⊢
  rw [conditionalsFrom.eq_def]
  simp only [htoken, List.length_cons, Nat.add_sub_cancel, conditionalsFrom_skip,
    List.take_succ_cons, List.take_left]

/-! ## Reading outlines -/

section

variable {template : ProcessedTemplate}

/-- No piece holds a token of a conditional. -/
theorem Piece.passes_conditionalToken {piece : Piece} (h : piece.WellFormed template) :
    Passes conditionalToken piece.text := by
  cases piece with
  | written insert =>
    exact Insert.passes atOpening_conditionalToken atSigil_conditionalToken
      (fun _ => conditionalToken_eq_none rfl rfl rfl rfl) h
  | mark directive => exact atOpening_conditionalToken.passes_of_not_mem (not_mem_render directive)

/-- A loop token is no token of a conditional. -/
theorem LoopHeader.WellFormed.passes_conditionalToken {header : LoopHeader}
    (h : header.WellFormed) :
    Passes conditionalToken header.token :=
  h.passes atOpening_conditionalToken fun _ => conditionalToken_eq_none rfl rfl rfl rfl

/-- The token that ends a loop is no token of a conditional. -/
theorem passes_conditionalToken_eachClosing : Passes conditionalToken eachClosing :=
  passes_eachClosing atOpening_conditionalToken fun _ => conditionalToken_eq_none rfl rfl rfl rfl

mutual

/-- Inside an open conditional the text of an outline is added to the body as it stands. -/
theorem conditionalsFrom_text :
    ∀ {outline : Outline Piece}, outline.WellFormed (Piece.WellFormed template) →
      ∀ (frame : Frame) (nested : Nat) (rest : Text),
        conditionalsFrom (some (frame, nested)) 0 (outline.text Piece.text ++ rest) =
          conditionalsFrom (some (frame.extend (outline.text Piece.text).reverse, nested)) 0 rest
  | .nil, _, frame, nested, rest => by
    rw [Outline.text, List.reverse_nil, Frame.extend_nil, List.nil_append]
  | .leaf piece next, hwell, frame, nested, rest => by
    rw [Outline.text, List.append_assoc,
      conditionalsFrom_some_of_passes (Piece.passes_conditionalToken hwell.1),
      conditionalsFrom_text hwell.2, Frame.extend_extend, List.reverse_append]
  | .loop header body next, ⟨hheader, hbody, hnext⟩, frame, nested, rest => by
    simp only [Outline.text, List.append_assoc]
    rw [conditionalsFrom_some_of_passes hheader.passes_conditionalToken,
      conditionalsFrom_text hbody,
      conditionalsFrom_some_of_passes passes_conditionalToken_eachClosing,
      conditionalsFrom_text hnext]
    simp only [Frame.extend_extend, List.reverse_append, List.append_assoc]
  | .conditional condition body arms next, ⟨hcondition, hbody, harms, hnext⟩,
      frame, nested, rest => by
    have hopened : ifToken condition ≠ [] := List.cons_ne_nil _ _
    have hclosed : ifClosing ≠ [] := List.cons_ne_nil _ _
    simp only [Outline.text, List.append_assoc]
    rw [conditionalsFrom_some_nested hopened (conditionalToken_ifToken hcondition _)
        (Or.inl ⟨_, rfl, rfl⟩), conditionalsFrom_text hbody, conditionalsFrom_armsText harms,
      conditionalsFrom_some_nested hclosed (conditionalToken_ifClosing _)
        (Or.inr (Or.inr ⟨rfl, rfl⟩)), conditionalsFrom_text hnext]
    simp only [Frame.extend_extend, List.reverse_append, List.append_assoc]

private theorem conditionalsFrom_armsText :
    ∀ {arms : Arms Piece}, arms.WellFormed (Piece.WellFormed template) →
      ∀ (frame : Frame) (nested : Nat) (rest : Text),
        conditionalsFrom (some (frame, nested + 1)) 0 (arms.text Piece.text ++ rest) =
          conditionalsFrom (some (frame.extend (arms.text Piece.text).reverse, nested + 1)) 0 rest
  | .nil, _, frame, nested, rest => by
    rw [Arms.text, List.reverse_nil, Frame.extend_nil, List.nil_append]
  | .cons condition body others, ⟨hcondition, hbody, hothers⟩, frame, nested, rest => by
    have hne : armToken condition ≠ [] := by cases condition <;> exact List.cons_ne_nil _ _
    simp only [Arms.text, List.append_assoc]
    rw [conditionalsFrom_some_nested hne (conditionalToken_armToken hcondition _)
        (Or.inr (Or.inl ⟨_, rfl, Nat.succ_ne_zero _, rfl⟩)), conditionalsFrom_text hbody,
      conditionalsFrom_armsText hothers]
    simp only [Frame.extend_extend, List.reverse_append, List.append_assoc]

end

/-- The arms as they are read from the text of an outline. -/
def Arms.read : Arms Piece → List Arm
  | .nil => []
  | .cons condition body rest =>
    { token := armToken condition, condition := condition.map Text.trim,
        body := body.text Piece.text } ::
      rest.read

/-- Closing a frame keeps an arm that was added and filled. -/
theorem Frame.complete_addArm_extend (frame : Frame) (token : Text) (condition : Option Text)
    (text : Text) :
    ((frame.addArm token condition).extend text.reverse).complete =
      { frame.complete with arms := frame.complete.arms ++
        [{ token, condition, body := text }] } := by
  simp only [addArm, extend, complete, List.append_nil, List.reverse_cons, List.map_append,
    List.map_cons, List.map_nil, List.reverse_reverse]

/-- Directly inside the outermost conditional, its further arms and the closing token complete
it. -/
private theorem conditionalsFrom_arms :
    ∀ {arms : Arms Piece}, arms.WellFormed (Piece.WellFormed template) →
      ∀ (frame : Frame) (rest : Text),
      conditionalsFrom (some (frame, 0)) 0 (arms.text Piece.text ++ ifClosing ++ rest) =
        .item (frame.source ++ arms.text Piece.text ++ ifClosing)
            { frame.complete with arms := frame.complete.arms ++ arms.read } ::
          conditionalsFrom none 0 rest
  | .nil, _, frame, rest => by
    rw [Arms.text, List.nil_append, conditionalsFrom_some_closed, Arms.read, List.append_nil,
      List.append_nil]
  | .cons condition body others, ⟨hcondition, hbody, hothers⟩, frame, rest => by
    have ih := conditionalsFrom_arms hothers
      ((frame.addArm (armToken condition) (condition.map Text.trim)).extend
        (body.text Piece.text).reverse) rest
    simp only [Arms.text, List.append_assoc] at ih ⊢
    rw [conditionalsFrom_some_branch hcondition, conditionalsFrom_text hbody, ih,
      Frame.complete_addArm_extend, Frame.source_extend, Frame.source_addArm]
    simp only [Arms.read, List.reverse_reverse, List.append_assoc, List.singleton_append]

/-- Conditionals are picked, and read from their text. -/
def pickConditional : Picking Conditional
  | .conditional condition body arms _ =>
    some { token := ifToken condition, condition := condition.trim, body := body.text Piece.text
           arms := arms.read }
  | .nil | .leaf _ _ | .loop _ _ _ => none

/-- The text of an outline is read into its outermost conditionals. -/
private theorem conditionalsFrom_outline :
    ∀ {outline : Outline Piece}, outline.WellFormed (Piece.WellFormed template) → ∀ rest : Text,
      conditionalsFrom none 0 (outline.text Piece.text ++ rest) =
        outline.segments pickConditional ++ conditionalsFrom none 0 rest
  | .nil, _, rest => rfl
  | .leaf piece next, hwell, rest => by
    rw [Outline.text, List.append_assoc,
      conditionalsFrom_none_of_passes (Piece.passes_conditionalToken hwell.1),
      conditionalsFrom_outline hwell.2]
    simp only [Outline.segments, pickConditional, List.append_assoc]
  | .loop header body next, ⟨hheader, hbody, hnext⟩, rest => by
    simp only [Outline.text, List.append_assoc]
    rw [conditionalsFrom_none_of_passes hheader.passes_conditionalToken,
      conditionalsFrom_outline hbody,
      conditionalsFrom_none_of_passes passes_conditionalToken_eachClosing,
      conditionalsFrom_outline hnext]
    simp only [Outline.segments, pickConditional, List.append_assoc]
  | .conditional condition body arms next, ⟨hcondition, hbody, harms, hnext⟩, rest => by
    have hitem := conditionalsFrom_arms harms
      ((⟨ifToken condition, condition.trim, [], []⟩ : Frame).extend (body.text Piece.text).reverse)
      (next.text Piece.text ++ rest)
    simp only [Outline.text, List.append_assoc] at hitem ⊢
    rw [conditionalsFrom_none_opened hcondition, conditionalsFrom_text hbody, hitem,
      conditionalsFrom_outline hnext, Frame.source_extend]
    simp only [Outline.segments, pickConditional, Frame.extend, Frame.complete, Frame.source,
      List.append_nil, List.reverse_nil, List.map_nil, List.flatMap_nil, List.nil_append,
      List.reverse_reverse, List.append_assoc, List.cons_append]

/-- The conditionals of the text of an outline are those of the outline. -/
theorem conditionals_text {outline : Outline Piece}
    (h : outline.WellFormed (Piece.WellFormed template)) :
    conditionals (outline.text Piece.text) = outline.segments pickConditional := by
  have hall := conditionalsFrom_outline h []
  rwa [List.append_nil, conditionalsFrom, List.append_nil] at hall

end

end ComponentFile.Template
