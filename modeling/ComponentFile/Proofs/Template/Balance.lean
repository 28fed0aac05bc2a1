import ComponentFile.Proofs.Template.Tidy
import ComponentFile.Proofs.Text.Trimming

/-!
# Bodies are balanced

A token of a conditional is recognised by its own characters, whatever follows it, and what is no
token in a longer text is none in a shorter one. So reading a body by itself finds the tokens that
the reading of the whole text has found in it (`Reads.values_segments`). A body ends where a token
outside all nested conditionals stands, and therefore every conditional opened in it is closed in
it, and every other token in it belongs to one of these.
-/

namespace ComponentFile.Template

/-! ## How tokens are written -/

/-- A text that can stand between a keyword and the closing braces. -/
structure IsHeader (inner : Text) : Prop where
  start : ∀ c ∈ inner.head?, isSpace c = true ∨ c = '}'
  ends : ¬closing <:+: inner ++ ['}']

/-- What is found between a keyword and the closing braces can stand there. -/
private theorem isHeader_of_header? {keyword text inner rest : Text}
    (h : header? keyword text = some (inner, rest)) : IsHeader inner := by
  refine ⟨fun d hd => ?_, not_isInfix_of_header? h⟩
  simp only [header?, Option.bind_eq_bind, Option.bind_eq_some_iff] at h
  obtain ⟨after, -, h⟩ := h
  split at h
  · cases h
  · next c tail =>
    split at h
    · next hc =>
      have htail := Text.eq_of_cut?_eq_some h
      cases inner with
      | nil => cases hd
      | cons e inner =>
        obtain rfl : e = d := Option.some.inj hd
        obtain rfl : c = e := (List.cons.inj htail).1
        simpa only [Bool.or_eq_true, beq_iff_eq] using hc
    · cases h

/-- A header is found exactly where it is written. -/
theorem header?_eq_some_iff {keyword text inner rest : Text} :
    header? keyword text = some (inner, rest) ↔
      IsHeader inner ∧ text = keyword ++ inner ++ closing ++ rest := by
  refine ⟨fun h => ⟨isHeader_of_header? h, eq_of_header?_eq_some h⟩, ?_⟩
  rintro ⟨hinner, rfl⟩
  have hcut : Text.cut? closing (inner ++ closing ++ rest) = some (inner, rest) :=
    Text.cut?_of_not_infix rest hinner.ends
  rw [header?, List.append_assoc, List.append_assoc, Text.after?_append, ← List.append_assoc]
  cases inner with
  | nil => exact hcut
  | cons c inner =>
    have hc : (isSpace c || c == '}') = true := by
      simpa only [Bool.or_eq_true, beq_iff_eq] using hinner.start c rfl
    simp only [List.cons_append] at hcut ⊢
    simp only [Option.bind_eq_bind, Option.bind_some, hc, if_true, hcut]

/-- The header of an arm is blank, or the word `if` and a condition. -/
inductive IsBranchHeader : Text → Option Text → Prop
  | otherwise (inner : Text) (hblank : inner.isBlankText = true) : IsBranchHeader inner none
  | condition (space condition : Text) (hspace : space.isBlankText = true)
    (hcondition : ∀ c ∈ condition.head?, isBlank c = true) :
    IsBranchHeader (space ++ ['i', 'f'] ++ condition) (some condition.trim)

/-- The header of an arm is read as it is written. -/
theorem branchOf?_eq_some_iff {inner : Text} {kind : ConditionalToken} :
    branchOf? inner = some kind ↔ ∃ condition, IsBranchHeader inner condition ∧
      kind = .branch condition := by
  constructor
  · intro h
    rw [branchOf?] at h
    split at h
    · next hblank => exact ⟨none, .otherwise inner hblank, (Option.some.inj h).symm⟩
    have hsplit (condition : Text)
        (hafter : Text.after? ['i', 'f'] inner.trimStart = some condition) :
        inner = inner.takeWhile isBlank ++ ['i', 'f'] ++ condition := by
      rw [List.append_assoc, ← Text.after?_eq_some_iff.mp hafter]
      exact List.takeWhile_append_dropWhile.symm
    have hspace : Text.isBlankText (inner.takeWhile isBlank) = true :=
      List.all_eq_true.mpr fun _ hc => List.mem_takeWhile_imp hc
    split at h
    · cases h
    · next hafter =>
      refine ⟨some (Text.trim []), ?_, (Option.some.inj h).symm⟩
      rw [hsplit _ hafter]
      exact .condition _ [] hspace fun _ hc => by cases hc
    · next c condition hafter =>
      split at h
      · next hc =>
        refine ⟨some (Text.trim (c :: condition)), ?_, (Option.some.inj h).symm⟩
        rw [hsplit _ hafter]
        refine .condition _ (c :: condition) hspace fun d hd => ?_
        rwa [← Option.some.inj hd]
      · cases h
  · rintro ⟨_, hheader, rfl⟩
    cases hheader with
    | otherwise _ hblank => rw [branchOf?, if_pos hblank]
    | condition space condition hspace hcondition =>
      have hnot : Text.isBlankText (space ++ ['i', 'f'] ++ condition) = false := by
        refine Text.isBlankText_of_mem (c := 'i') ?_ (by decide)
        simp only [List.mem_append, List.mem_cons, true_or, or_true]
      have hstart : Text.trimStart (space ++ ['i', 'f'] ++ condition) =
          ['i', 'f'] ++ condition := by
        rw [List.append_assoc, Text.trimStart_append_of_blank hspace]
        exact Text.trimStart_eq_self fun c hc => by
          rw [← Option.some.inj hc]
          decide
      rw [branchOf?, hnot, if_neg Bool.false_ne_true, hstart, Text.after?_append]
      cases condition with
      | nil => rfl
      | cons c condition => simp only [hcondition c rfl, if_true]

/-- How each token is written. -/
inductive ConditionalToken.Written : ConditionalToken → Text → Prop
  | closed : Written .closed ifClosing
  | opened (inner : Text) (hinner : IsHeader inner) :
    Written (.opened inner.trim) (ifKeyword ++ inner ++ closing)
  | elseIf (inner : Text) (hinner : IsHeader inner) :
    Written (.branch (some inner.trim)) (elseIfKeyword ++ inner ++ closing)
  | branch (inner : Text) (condition : Option Text) (hinner : IsHeader inner)
    (hbranch : IsBranchHeader inner condition) :
    Written (.branch condition) (elseKeyword ++ inner ++ closing)

private theorem header?_elseIfKeyword_eq_none {inner : Text} (hinner : IsHeader inner)
    (rest : Text) :
    header? elseIfKeyword (elseKeyword ++ inner ++ closing ++ rest) = none := by
  cases inner with
  | nil => rfl
  | cons c inner =>
    have hc : 'i' ≠ c := by
      rintro rfl
      exact absurd (hinner.start _ rfl) (by decide)
    simp only [header?, elseIfKeyword, elseKeyword, List.cons_append, List.nil_append, Text.after?,
      if_true, if_neg hc, Option.bind_eq_bind, Option.bind_none]

/-- A token is read exactly where it is written. -/
theorem conditionalToken_eq_some_iff {text : Text} {kind : ConditionalToken} {length : Nat} :
    conditionalToken text = some (kind, length) ↔
      ∃ token rest, text = token ++ rest ∧ length = token.length ∧ kind.Written token := by
  constructor
  · intro h
    have hlength (keyword inner : Text) :
        headerLength keyword inner = (keyword ++ inner ++ closing).length := by
      simp only [headerLength, List.length_append]
    unfold conditionalToken at h
    split at h
    · next hclosed =>
      obtain ⟨rest, hrest⟩ := Option.isSome_iff_exists.mp hclosed
      obtain ⟨rfl, rfl⟩ := Prod.mk.inj (Option.some.inj h)
      exact ⟨ifClosing, rest, Text.after?_eq_some_iff.mp hrest, rfl, .closed⟩
    split at h
    · next inner rest hheader =>
      obtain ⟨rfl, rfl⟩ := Prod.mk.inj (Option.some.inj h)
      obtain ⟨hinner, htext⟩ := header?_eq_some_iff.mp hheader
      exact ⟨_, rest, htext, hlength _ _, .opened inner hinner⟩
    split at h
    · next inner rest hheader =>
      obtain ⟨rfl, rfl⟩ := Prod.mk.inj (Option.some.inj h)
      obtain ⟨hinner, htext⟩ := header?_eq_some_iff.mp hheader
      exact ⟨_, rest, htext, hlength _ _, .elseIf inner hinner⟩
    split at h
    · next inner rest hheader =>
      obtain ⟨hinner, htext⟩ := header?_eq_some_iff.mp hheader
      obtain ⟨_, hbranch, he⟩ := Option.map_eq_some_iff.mp h
      obtain ⟨rfl, rfl⟩ := Prod.mk.inj he
      obtain ⟨condition, hwritten, rfl⟩ := branchOf?_eq_some_iff.mp hbranch
      exact ⟨_, rest, htext, hlength _ _, .branch inner condition hinner hwritten⟩
    · cases h
  · rintro ⟨token, rest, rfl, rfl, hwritten⟩
    cases hwritten with
    | closed => rfl
    | opened inner hinner =>
      have hstart : Text.startsWith ifClosing (ifKeyword ++ inner ++ closing ++ rest) = false := rfl
      rw [conditionalToken, hstart, if_neg Bool.false_ne_true,
        header?_eq_some_iff.mpr ⟨hinner, rfl⟩]
      simp only [headerLength, List.length_append]
    | elseIf inner hinner =>
      have hstart : Text.startsWith ifClosing (elseIfKeyword ++ inner ++ closing ++ rest) = false :=
        rfl
      have hif : header? ifKeyword (elseIfKeyword ++ inner ++ closing ++ rest) = none := rfl
      rw [conditionalToken, hstart, if_neg Bool.false_ne_true, hif,
        header?_eq_some_iff.mpr ⟨hinner, rfl⟩]
      simp only [headerLength, List.length_append]
    | branch inner condition hinner hbranch =>
      have hstart : Text.startsWith ifClosing (elseKeyword ++ inner ++ closing ++ rest) = false :=
        rfl
      have hif : header? ifKeyword (elseKeyword ++ inner ++ closing ++ rest) = none := rfl
      rw [conditionalToken, hstart, if_neg Bool.false_ne_true, hif,
        header?_elseIfKeyword_eq_none hinner, header?_eq_some_iff.mpr ⟨hinner, rfl⟩]
      simp only [branchOf?_eq_some_iff.mpr ⟨condition, hbranch, rfl⟩, Option.map_some, headerLength,
        List.length_append]

/-- A written token is read as it is written, whatever follows it. -/
theorem ConditionalToken.Written.conditionalToken_append {kind : ConditionalToken} {token : Text}
    (h : kind.Written token) (rest : Text) :
    conditionalToken (token ++ rest) = some (kind, token.length) :=
  conditionalToken_eq_some_iff.mpr ⟨token, rest, rfl, rfl, h⟩

/-- A token that was read somewhere is written out. -/
theorem ReadAs.written {token : Text} {kind : ConditionalToken} (h : ReadAs token kind) :
    kind.Written token := by
  obtain ⟨rest, h⟩ := h
  obtain ⟨other, after, htext, hlength, hwritten⟩ := conditionalToken_eq_some_iff.mp h
  rwa [(List.append_inj htext hlength).1]

/-- There is no token at the start of a text if there is none with more text after it. -/
private theorem conditionalToken_eq_none_of_append {text rest : Text}
    (h : conditionalToken (text ++ rest) = none) :
    conditionalToken text = none := by
  cases hread : conditionalToken text with
  | none => rfl
  | some found =>
    obtain ⟨token, after, rfl, -, hwritten⟩ := conditionalToken_eq_some_iff.mp hread
    rw [List.append_assoc, hwritten.conditionalToken_append] at h
    cases h

/-! ## Reading a text by itself -/

/-- The tokens of a text, read by itself from left to right. -/
def tokens (text : Text) : List ConditionalToken :=
  Segment.values (Segment.segments conditionalToken text)

/-- Reading a text passes tokens and comes to the rest of it. -/
inductive Reads : Text → List ConditionalToken → Text → Prop
  | refl (text : Text) : Reads text [] text
  | char {c : Char} {text rest : Text} {passed : List ConditionalToken}
    (hnone : conditionalToken (c :: text) = none) (hnext : Reads text passed rest) :
    Reads (c :: text) passed rest
  | token {token text rest : Text} {kind : ConditionalToken} {passed : List ConditionalToken}
    (hwritten : kind.Written token) (hnext : Reads text passed rest) :
    Reads (token ++ text) (kind :: passed) rest

namespace Reads

/-- A reading comes to an end of the text. -/
theorem isSuffix {text rest : Text} {passed : List ConditionalToken} (h : Reads text passed rest) :
    rest <:+ text := by
  induction h with
  | refl => exact List.suffix_rfl
  | char _ _ ih => exact ih.trans (List.suffix_cons _ _)
  | token _ _ ih => exact ih.trans (List.suffix_append _ _)

/-- Readings follow one another. -/
theorem trans {text middle rest : Text} {passed more : List ConditionalToken}
    (h : Reads text passed middle) (hmore : Reads middle more rest) :
    Reads text (passed ++ more) rest := by
  induction h with
  | refl => exact hmore
  | char hnone _ ih => exact .char hnone (ih hmore)
  | token hwritten _ ih => exact .token hwritten (ih hmore)

end Reads

/-- A written token is not empty. -/
theorem ConditionalToken.Written.exists_cons {kind : ConditionalToken} {token : Text}
    (h : kind.Written token) :
    ∃ tail, token = '{' :: tail := by
  cases h <;> exact ⟨_, rfl⟩

/-- A text read by itself starts with the token written there. -/
private theorem tokens_append {kind : ConditionalToken} {token : Text} (h : kind.Written token)
    (rest : Text) :
    tokens (token ++ rest) = kind :: tokens rest := by
  obtain ⟨tail, rfl⟩ := h.exists_cons
  have hread := h.conditionalToken_append rest
  rw [List.cons_append, List.length_cons] at hread
  rw [tokens, Segment.segments, List.cons_append, Segment.scan, hread]
  simp only [Segment.values_item, Segment.scan_eq_scan_drop conditionalToken tail.length,
    List.drop_left]
  rfl

/-- A text read by itself goes on after a character that starts no token. -/
private theorem tokens_cons {c : Char} {text : Text} (h : conditionalToken (c :: text) = none) :
    tokens (c :: text) = tokens text := by
  rw [tokens, Segment.segments, Segment.scan, h]
  rfl

/-- A text read by itself has the tokens that a longer reading passes in it. -/
theorem Reads.tokens_eq {text rest : Text} {passed : List ConditionalToken}
    (h : Reads (text ++ rest) passed rest) : tokens text = passed := by
  generalize hwhole : text ++ rest = whole at h
  induction h generalizing text with
  | refl =>
    rw [List.append_left_eq_self.mp hwhole]
    rfl
  | @char c _ rest _ hnone hnext ih =>
    obtain ⟨front, rfl⟩ := hnext.isSuffix
    rw [← List.cons_append] at hwhole hnone
    rw [List.append_cancel_right hwhole, tokens_cons (conditionalToken_eq_none_of_append hnone),
      ih rfl]
  | @token token _ rest _ _ hwritten hnext ih =>
    obtain ⟨front, rfl⟩ := hnext.isSuffix
    rw [← List.append_assoc] at hwhole
    rw [List.append_cancel_right hwhole, tokens_append hwritten, ih rfl]

/-! ## Balance -/

/-- Every conditional opened in the text is closed in it, and no other token stands outside of
these. -/
def IsBalanced (text : Text) : Prop := (tokens text).foldlM ConditionalToken.depthAfter 0 = some 0

namespace Frame

/-- The text of the current arm so far. -/
def current (frame : Frame) : Text :=
  match frame.arms with
  | [] => frame.body.reverse
  | arm :: _ => arm.body.reverse

/-- The texts of the arms before the current one, the last one first. -/
def finished (frame : Frame) : List Text :=
  match frame.arms with
  | [] => []
  | _ :: arms => arms.map (fun arm => arm.body.reverse) ++ [frame.body.reverse]

@[simp] theorem current_extend (frame : Frame) (reversed : Text) :
    (frame.extend reversed).current = frame.current ++ reversed.reverse := by
  obtain ⟨token, condition, body, arms⟩ := frame
  cases arms <;> simp [extend, current]

@[simp] theorem finished_extend (frame : Frame) (reversed : Text) :
    (frame.extend reversed).finished = frame.finished := by
  obtain ⟨token, condition, body, arms⟩ := frame
  cases arms <;> rfl

@[simp] theorem finished_addArm (frame : Frame) (token : Text) (condition : Option Text) :
    (frame.addArm token condition).finished = frame.current :: frame.finished := by
  obtain ⟨token, condition, body, arms⟩ := frame
  cases arms <;> rfl

/-- Closing a frame keeps the texts of its arms. -/
theorem bodies_complete (frame : Frame) :
    frame.complete.bodies = (frame.current :: frame.finished).reverse := by
  obtain ⟨token, condition, body, arms⟩ := frame
  cases arms <;> simp [complete, Conditional.bodies, current, finished, Function.comp_def]

/-- The reading of the current arm has passed tokens that leave `nested` conditionals open in it,
and the arms before it are balanced. -/
structure IsBalanced (frame : Frame) (nested : Nat) (rest : Text) : Prop where
  current : ∃ passed, Reads (frame.current ++ rest) passed rest ∧
    passed.foldlM ConditionalToken.depthAfter 0 = some nested
  finished : ∀ body ∈ frame.finished, Template.IsBalanced body

namespace IsBalanced

variable {frame : Frame}

/-- An arm with no conditional open in it is balanced. -/
theorem bodies {rest : Text} (h : frame.IsBalanced 0 rest) :
    ∀ body ∈ frame.current :: frame.finished, Template.IsBalanced body := by
  intro body hm
  rcases List.mem_cons.mp hm with rfl | hm
  · obtain ⟨passed, hreads, hdepth⟩ := h.current
    rwa [Template.IsBalanced, hreads.tokens_eq]
  · exact h.finished body hm

/-- A piece that is read on adds its tokens to the current arm. -/
theorem extend {nested depth : Nat} {piece rest : Text} {more : List ConditionalToken}
    (h : frame.IsBalanced nested (piece ++ rest)) (hreads : Reads (piece ++ rest) more rest)
    (hdepth : more.foldlM ConditionalToken.depthAfter nested = some depth) :
    (frame.extend piece.reverse).IsBalanced depth rest := by
  obtain ⟨passed, hpassed, hnested⟩ := h.current
  constructor
  · refine ⟨passed ++ more, ?_, ?_⟩
    · rw [current_extend, List.reverse_reverse, List.append_assoc]
      exact hpassed.trans hreads
    · rw [List.foldlM_append, hnested]
      exact hdepth
  · rw [finished_extend]
    exact h.finished

end IsBalanced

end Frame

/-- Along the reading of conditionals all finished arms are balanced. -/
private theorem frameInvariant_isBalanced :
    FrameInvariant Frame.IsBalanced fun _ conditional => ∀ body ∈ conditional.bodies,
      IsBalanced body where
  opened _ _ := ⟨⟨[], .refl _, rfl⟩, fun body hm => absurd hm List.not_mem_nil⟩
  char := by
    intro frame nested c rest hnone h
    have hreads : Reads ([c] ++ rest) [] rest := .char hnone (.refl rest)
    exact Frame.IsBalanced.extend h hreads rfl
  arm := by
    intro frame token rest condition _ h
    refine ⟨⟨[], .refl _, rfl⟩, ?_⟩
    rw [Frame.finished_addArm]
    exact h.bodies
  inside := by
    intro frame nested depth kind token rest hread hdepth h
    have hwritten : kind.Written token := ReadAs.written ⟨rest, hread⟩
    apply h.extend (.token hwritten (.refl rest))
    rw [List.foldlM_cons, hdepth]
    rfl
  closed := by
    intro frame rest h body hm
    rw [Frame.bodies_complete, List.mem_reverse] at hm
    exact h.bodies body hm

/-- The bodies of every conditional of a text are balanced. -/
theorem isBalanced_of_mem_conditionals {text source : Text} {conditional : Conditional}
    (h : .item source conditional ∈ conditionals text) :
    ∀ body ∈ conditional.bodies, IsBalanced body :=
  frameInvariant_isBalanced.of_mem_conditionalsFrom (fun _ _ he => by cases he) h

end ComponentFile.Template
