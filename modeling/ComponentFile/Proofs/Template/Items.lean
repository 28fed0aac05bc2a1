import ComponentFile.Proofs.Template.Conditional
import ComponentFile.Proofs.Template.Loop
import ComponentFile.Proofs.Text.Lines

/-!
# The items of a reading

Every token that the reading of conditionals keeps was read as a token at the place where it stood.
So the source of an item starts with the keyword of its directive, and the bodies of conditionals
and loops are connected pieces of what follows its first brace.
-/

namespace ComponentFile

namespace Segment

variable {α : Type}

/-- The source of an item is a connected piece of the text. -/
theorem isInfix_of_mem {segments : List (Segment α)} {source : Text} {value : α}
    (h : .item source value ∈ segments) : source <:+: sources segments := by
  obtain ⟨before, after, rfl⟩ := List.append_of_mem h
  rw [sources_append, sources_cons, ← List.append_assoc]
  exact List.infix_append _ _ _

end Segment

/-- Pieces that stand in a text in order are connected pieces of it. -/
theorem Text.Holds.isInfix_of_mem {text piece : Text} {pieces : List Text} (h : text.Holds pieces)
    (hm : piece ∈ pieces) : piece <:+: text := by
  induction h with
  | nil => cases hm
  | cons before first _ ih =>
    rcases List.mem_cons.mp hm with rfl | hm
    · exact List.infix_append _ _ _
    · exact (ih hm).trans (List.suffix_append _ _).isInfix

namespace Template

/-! ## Tokens of conditionals -/

/-- The token is read as a token of a conditional where it stands at the start of some text. -/
def ReadAs (token : Text) (kind : ConditionalToken) : Prop :=
  ∃ rest, conditionalToken (token ++ rest) = some (kind, token.length)

/-- A conditional still open keeps tokens that were read as its tokens. -/
structure Frame.IsRead (frame : Frame) : Prop where
  token : ReadAs frame.token (.opened frame.condition)
  arms : ∀ arm ∈ frame.arms, ReadAs arm.token (.branch arm.condition)

/-- A conditional keeps tokens that were read as its tokens. -/
structure Conditional.IsRead (conditional : Conditional) : Prop where
  token : ReadAs conditional.token (.opened conditional.condition)
  arms : ∀ arm ∈ conditional.arms, ReadAs arm.token (.branch arm.condition)

namespace Frame.IsRead

variable {frame : Frame}

/-- Text of a body changes no token. -/
theorem extend (h : frame.IsRead) (reversed : Text) : (frame.extend reversed).IsRead := by
  unfold Frame.extend
  split
  · exact ⟨h.token, fun arm hm => h.arms arm hm⟩
  · next first arms hframe =>
    have harms := h.arms
    rw [hframe] at harms
    refine ⟨h.token, fun arm hm => ?_⟩
    rcases List.mem_cons.mp hm with rfl | hm
    · exact harms first List.mem_cons_self
    · exact harms arm (List.mem_cons_of_mem _ hm)

/-- A further arm brings its own token. -/
theorem addArm (h : frame.IsRead) {token : Text} {condition : Option Text}
    (htoken : ReadAs token (.branch condition)) : (frame.addArm token condition).IsRead := by
  refine ⟨h.token, fun arm hm => ?_⟩
  rcases List.mem_cons.mp hm with rfl | hm
  · exact htoken
  · exact h.arms arm hm

/-- Closing a frame keeps its tokens. -/
theorem complete (h : frame.IsRead) : frame.complete.IsRead := by
  refine ⟨h.token, fun arm hm => ?_⟩
  obtain ⟨other, hother, rfl⟩ := List.mem_map.mp hm
  exact h.arms other (List.mem_reverse.mp hother)

end Frame.IsRead

/-- The reading of conditionals keeps tokens that were read as tokens. -/
private theorem frameInvariant_isRead :
    FrameInvariant (fun frame _ _ => frame.IsRead) fun _ conditional => conditional.IsRead where
  opened hread _ := ⟨⟨_, hread⟩, fun _ hm => absurd hm List.not_mem_nil⟩
  char _ h := h.extend _
  arm hread h := h.addArm ⟨_, hread⟩
  inside _ _ h := h.extend _
  closed h := h.complete

/-- Every conditional of a text has its source and keeps tokens that were read as its tokens. -/
theorem isRead_of_mem_conditionals {text source : Text} {conditional : Conditional}
    (h : .item source conditional ∈ conditionals text) :
    conditional.HasSource source ∧ conditional.IsRead := by
  refine ⟨hasSource_of_mem_conditionals h, ?_⟩
  exact frameInvariant_isRead.of_mem_conditionalsFrom (fun _ _ he => by cases he) h

/-! ## The starts of sources -/

/-- How every block directive starts. -/
def blockMark : Text := ['{', '{', '@']

/-- A token that opens a conditional starts with its keyword. -/
theorem ReadAs.isPrefix_of_opened {token condition : Text} (h : ReadAs token (.opened condition)) :
    ifKeyword <+: token := by
  obtain ⟨rest, h⟩ := h
  have hbranch (keyword inner : Text) :
      (branchOf? inner).map (·, headerLength keyword inner) ≠
        some (.opened condition, token.length) := by
    intro he
    obtain ⟨branch, hbranch, he⟩ := Option.map_eq_some_iff.mp he
    rw [Prod.mk.injEq] at he
    rw [he.1] at hbranch
    unfold branchOf? at hbranch
    split at hbranch
    · cases hbranch
    · split at hbranch
      · cases hbranch
      · cases hbranch
      · split at hbranch <;> cases hbranch
  unfold conditionalToken at h
  split at h
  · cases h
  split at h
  · next inner after hheader =>
    have htext := eq_of_header?_eq_some hheader
    have hlength : token.length = headerLength ifKeyword inner :=
      (Prod.mk.inj (Option.some.inj h)).2.symm
    have htoken : token = ifKeyword ++ inner ++ closing := by
      rw [← take_headerLength ifKeyword inner after, ← htext, ← hlength, List.take_left]
    rw [htoken, List.append_assoc]
    exact List.prefix_append _ _
  split at h
  · cases h
  split at h
  · exact absurd h (hbranch _ _)
  · cases h

/-- The source of a conditional starts like a block directive. -/
theorem isPrefix_of_mem_conditionals {text source : Text} {conditional : Conditional}
    (h : .item source conditional ∈ conditionals text) : blockMark <+: source := by
  obtain ⟨⟨tail, -, rfl⟩, hread⟩ := isRead_of_mem_conditionals h
  have hkeyword : blockMark <+: ifKeyword := by decide
  rw [List.append_assoc]
  exact (hkeyword.trans hread.token.isPrefix_of_opened).trans (List.prefix_append _ _)

/-- The source of a loop starts like a block directive. -/
theorem isPrefix_of_mem_loops {text source : Text} {loop : Loop}
    (h : .item source loop ∈ loops text) : blockMark <+: source := by
  have hkeyword : blockMark <+: eachKeyword := by decide
  rw [source_of_mem_loopsOf h, Loop.source, List.append_assoc, List.append_assoc, List.append_assoc]
  exact hkeyword.trans (List.prefix_append _ _)

/-- The source of raw markup starts like a block directive. -/
theorem isPrefix_of_mem_rawMarkup {text source content : Text}
    (h : .item source content ∈ Segment.segments rawMarkup text) : blockMark <+: source := by
  obtain ⟨tail, length, hr, rfl⟩ := Segment.exists_of_mem_scan h
  simp only [rawMarkup, Option.bind_eq_bind, Option.bind_eq_some_iff, Prod.exists] at hr
  obtain ⟨inner, rest, hheader, hr⟩ := hr
  have hkeyword : blockMark <+: rawKeyword := by decide
  split at hr
  · cases hr
  · simp only [Option.pure_def, Option.some.injEq, Prod.mk.injEq] at hr
    obtain ⟨-, rfl⟩ := hr
    rw [eq_of_header?_eq_some hheader, take_headerLength, List.append_assoc]
    exact hkeyword.trans (List.prefix_append _ _)

/-- The source of an interpolation starts with two opening braces. -/
theorem isPrefix_of_mem_interpolation {text source expression : Text}
    (h : .item source expression ∈ Segment.segments interpolation text) : opening <+: source := by
  obtain ⟨inner, -, rfl⟩ := exists_of_mem_interpolation h
  rw [List.append_assoc]
  exact List.prefix_append _ _

/-! ## Bodies -/

/-- The text is the trimmed body of a conditional or loop that one pass takes out. -/
inductive IsBody (text body : Text) : Prop
  /-- The body of an arm. -/
  | conditional (source : Text) (conditional : Conditional)
      (h : .item source conditional ∈ conditionals text)
      (hbody : body ∈ conditional.bodies.map Text.trim)
  /-- The body of a loop. -/
  | loop (source : Text) (loop : Loop) (h : .item source loop ∈ loops text)
      (hbody : body = loop.body.trim)

/-- A body is a connected piece of what follows the first brace of its directive. -/
theorem IsBody.exists_brace {text body : Text} (h : IsBody text body) :
    ∃ front rest, text = front ++ '{' :: rest ∧ body <:+: rest := by
  -- Either source is a brace and then a text that holds the body.
  have hsource {source rest : Text} (hs : source <:+: text) (hrest : source = '{' :: rest)
      (hbody : body <:+: rest) : ∃ front rest, text = front ++ '{' :: rest ∧ body <:+: rest := by
    obtain ⟨front, back, rfl⟩ := hs
    refine ⟨front, rest ++ back, ?_, hbody.trans (List.prefix_append _ _).isInfix⟩
    rw [hrest, List.append_assoc, List.cons_append]
  cases h with
  | conditional source conditional h hbody =>
    obtain ⟨⟨tail, htoken, he⟩, -⟩ := isRead_of_mem_conditionals h
    have hpiece := Segment.isInfix_of_mem h
    rw [sources_conditionals] at hpiece
    rw [htoken, List.append_assoc, List.cons_append] at he
    refine hsource hpiece he ?_
    have hholds := conditional.holds_interior.map_trim.isInfix_of_mem hbody
    exact (hholds.trans (List.prefix_append _ _).isInfix).trans (List.suffix_append _ _).isInfix
  | loop source loop h hbody =>
    have he := source_of_mem_loopsOf h
    have hpiece := Segment.isInfix_of_mem h
    rw [sources_loops] at hpiece
    refine hsource hpiece he ?_
    rw [hbody]
    exact (Text.trim_isInfix _).trans (List.infix_append _ _ _)

end Template

end ComponentFile
