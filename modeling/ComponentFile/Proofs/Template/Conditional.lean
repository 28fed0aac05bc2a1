import ComponentFile.Proofs.Template.Replacement
import ComponentFile.Template.Conditional

/-!
# The sources of conditionals

The reading of conditionals loses no text, and the source of a conditional is its opening token, its
bodies with the tokens of its arms between them, and the closing token. So the bodies stand in the
source in order, and taking conditionals out is sound whenever processing the bodies is.
-/

namespace ComponentFile.Template

/-- The text between the opening token and the closing token. -/
def Conditional.interior (conditional : Conditional) : Text :=
  conditional.body ++ conditional.arms.flatMap fun arm => arm.token ++ arm.body

/-- The bodies of a conditional in order. -/
def Conditional.bodies (conditional : Conditional) : List Text :=
  conditional.body :: conditional.arms.map Arm.body

/-- The bodies stand between the tokens. -/
theorem Conditional.holds_interior (conditional : Conditional) :
    conditional.interior.Holds conditional.bodies := by
  refine (Text.Holds.self conditional.body).append ?_
  induction conditional.arms with
  | nil => exact .nil _
  | cons arm arms ih => exact ((Text.Holds.self arm.body).append_left arm.token).append ih

namespace Frame

/-- The text read since a frame was opened is what closing it keeps. -/
theorem source_eq (frame : Frame) : frame.source = frame.token ++ frame.complete.interior := by
  simp only [source, complete, Conditional.interior, List.flatMap_map, List.append_assoc]

@[simp] theorem source_extend (frame : Frame) (reversed : Text) :
    (frame.extend reversed).source = frame.source ++ reversed.reverse := by
  unfold extend
  split
  · next h => simp [source, h]
  · next arm arms h => simp [source, h]

@[simp] theorem source_addArm (frame : Frame) (token : Text) (condition : Option Text) :
    (frame.addArm token condition).source = frame.source ++ token := by
  simp [source, addArm]

@[simp] theorem token_extend (frame : Frame) (reversed : Text) :
    (frame.extend reversed).token = frame.token := by
  unfold extend
  split <;> rfl

end Frame

/-- A token takes up characters at the start of the text, a brace first. -/
theorem exists_of_conditionalToken {text : Text} {token : ConditionalToken} {length : Nat}
    (h : conditionalToken text = some (token, length)) :
    ∃ tail rest, text = '{' :: tail ++ rest ∧ length = tail.length + 1 ∧
      (token = .closed → '{' :: tail = ifClosing) := by
  have hheader {keyword tail inner rest : Text} (hk : keyword = '{' :: tail)
      (hh : header? keyword text = some (inner, rest)) :
      text = '{' :: (tail ++ inner ++ closing) ++ rest ∧
        headerLength keyword inner = (tail ++ inner ++ closing).length + 1 := by
    refine ⟨?_, ?_⟩
    · rw [eq_of_header?_eq_some hh, hk]
      simp only [List.append_assoc, List.cons_append]
    · simp only [headerLength, hk, List.length_append, List.length_cons]
      omega
  unfold conditionalToken at h
  split at h
  · next hclosed =>
    obtain ⟨rest, hrest⟩ := Option.isSome_iff_exists.mp hclosed
    simp only [Option.some.injEq, Prod.mk.injEq] at h
    obtain ⟨rfl, rfl⟩ := h
    exact ⟨_, rest, Text.after?_eq_some_iff.mp hrest, rfl, fun _ => rfl⟩
  split at h
  · next inner rest hh =>
    simp only [Option.some.injEq, Prod.mk.injEq] at h
    obtain ⟨rfl, rfl⟩ := h
    obtain ⟨htext, hlength⟩ := hheader rfl hh
    exact ⟨_, rest, htext, hlength, fun he => by cases he⟩
  split at h
  · next inner rest hh =>
    simp only [Option.some.injEq, Prod.mk.injEq] at h
    obtain ⟨rfl, rfl⟩ := h
    obtain ⟨htext, hlength⟩ := hheader rfl hh
    exact ⟨_, rest, htext, hlength, fun he => by cases he⟩
  split at h
  · next inner rest hh =>
    simp only [Option.map_eq_some_iff, Prod.mk.injEq] at h
    obtain ⟨branch, hbranch, rfl, rfl⟩ := h
    obtain ⟨htext, hlength⟩ := hheader rfl hh
    refine ⟨_, rest, htext, hlength, fun he => ?_⟩
    subst he
    unfold branchOf? at hbranch
    split at hbranch
    · cases hbranch
    · split at hbranch
      · cases hbranch
      · cases hbranch
      · split at hbranch <;> cases hbranch
  · cases h

private theorem take_append_drop_of_conditionalToken {c : Char} {rest : Text}
    {token : ConditionalToken} {length : Nat}
    (h : conditionalToken (c :: rest) = some (token, length)) :
    (c :: rest).take length ++ rest.drop (length - 1) = c :: rest := by
  obtain ⟨tail, _, _, rfl, _⟩ := exists_of_conditionalToken h
  rw [Nat.add_sub_cancel, List.take_succ_cons, List.cons_append, List.take_append_drop]

/-- The text of the conditional that is still open. -/
def openedSource : Option (Frame × Nat) → Text
  | none => []
  | some (frame, _) => frame.source

private theorem sources_conditionalsFrom (opened : Option (Frame × Nat)) (skip : Nat)
    (text : Text) :
    Segment.sources (conditionalsFrom opened skip text) =
      openedSource opened ++ text.drop skip := by
  fun_induction conditionalsFrom opened skip text with
  | case1 => simp only [Segment.sources_nil, openedSource, List.drop_nil, List.append_nil]
  | case2 => simp only [Segment.sources_plain, openedSource, List.drop_nil, List.append_nil]
  | case3 opened skip c rest ih => simpa only [List.drop_succ_cons] using ih
  | case4 c rest condition length htoken frame ih =>
    have hframe : openedSource (some (frame, 0)) = (c :: rest).take length := by
      simp [openedSource, frame, Frame.source]
    rw [ih, hframe, take_append_drop_of_conditionalToken htoken]
    rfl
  | case5 c rest _ ih =>
    rw [Segment.sources_cons, ih]
    rfl
  | case6 frame c rest nested _ ih => simpa [openedSource] using ih
  | case7 frame c rest condition length htoken token ih =>
    rw [ih, openedSource, Frame.source_addArm, List.append_assoc,
      take_append_drop_of_conditionalToken htoken]
    rfl
  | case8 frame c rest length htoken ih =>
    rw [Segment.sources_cons, ih, Segment.source, openedSource, List.append_assoc, List.nil_append,
      take_append_drop_of_conditionalToken htoken]
    rfl
  | case9 frame c rest token length nested _ _ htoken grown inside ih =>
    rw [ih, openedSource, Frame.source_extend, List.reverse_reverse, List.append_assoc,
      take_append_drop_of_conditionalToken htoken]
    rfl

/-- The segments of the conditionals of a text make up the text. -/
theorem sources_conditionals (text : Text) : Segment.sources (conditionals text) = text := by
  simp only [conditionals, sources_conditionalsFrom, openedSource, List.nil_append, List.drop_zero]

/-- The source of a conditional: tokens around its bodies. -/
def Conditional.HasSource (conditional : Conditional) (source : Text) : Prop :=
  ∃ tail, conditional.token = '{' :: tail ∧
    source = conditional.token ++ conditional.interior ++ ifClosing

private theorem exists_token_append {c : Char} {rest : Text} {kind : ConditionalToken}
    {length : Nat} (h : conditionalToken (c :: rest) = some (kind, length)) :
    ∃ token after, (c :: rest).take length = token ∧ rest.drop (length - 1) = after ∧
      c :: rest = token ++ after ∧ conditionalToken (token ++ after) = some (kind, token.length) ∧
      (∃ tail, token = '{' :: tail) ∧ (kind = .closed → token = ifClosing) := by
  obtain ⟨tail, after, htext, rfl, hclosed⟩ := exists_of_conditionalToken h
  have htake : (c :: rest).take (tail.length + 1) = '{' :: tail := by
    rw [htext, List.cons_append, List.take_succ_cons, List.take_left]
  have hdrop : rest.drop (tail.length + 1 - 1) = after := by
    rw [(List.cons.inj htext).2, Nat.add_sub_cancel]
    exact List.drop_left
  refine ⟨'{' :: tail, after, htake, hdrop, htext, ?_, ⟨tail, rfl⟩, hclosed⟩
  rw [← htext]
  exact h

/-- The number of conditionals open after a token, if the token may stand where `depth` are open. -/
def ConditionalToken.depthAfter : Nat → ConditionalToken → Option Nat
  | depth, .opened _ => some (depth + 1)
  | 0, _ => none
  | depth + 1, .branch _ => some (depth + 1)
  | depth + 1, .closed => some depth

/-- What every step of the reading keeps about the open conditional, the number of conditionals open
inside it and the text still to be read, and what it says when the conditional is closed. -/
structure FrameInvariant (invariant : Frame → Nat → Text → Prop)
    (goal : Text → Conditional → Prop) : Prop where
  opened : ∀ {token condition rest : Text},
    conditionalToken (token ++ rest) = some (.opened condition, token.length) →
    (∃ tail, token = '{' :: tail) →
    invariant { token, condition, body := [], arms := [] } 0 rest
  char : ∀ {frame : Frame} {nested : Nat} {c : Char} {rest : Text},
      conditionalToken (c :: rest) = none →
    invariant frame nested (c :: rest) → invariant (frame.extend [c]) nested rest
  arm : ∀ {frame : Frame} {token rest : Text} {condition : Option Text},
    conditionalToken (token ++ rest) = some (.branch condition, token.length) →
    invariant frame 0 (token ++ rest) → invariant (frame.addArm token condition) 0 rest
  inside : ∀ {frame : Frame} {nested depth : Nat} {kind : ConditionalToken} {token rest : Text},
    conditionalToken (token ++ rest) = some (kind, token.length) →
    kind.depthAfter nested = some depth →
    invariant frame nested (token ++ rest) → invariant (frame.extend token.reverse) depth rest
  closed : ∀ {frame : Frame} {rest : Text}, invariant frame 0 (ifClosing ++ rest) →
    goal (frame.source ++ ifClosing) frame.complete

/-- What is kept along the reading holds of every conditional that it completes. -/
theorem FrameInvariant.of_mem_conditionalsFrom {invariant : Frame → Nat → Text → Prop}
    {goal : Text → Conditional → Prop} (hkeeps : FrameInvariant invariant goal)
    {opened : Option (Frame × Nat)} {skip : Nat} {text source : Text} {conditional : Conditional}
    (hopened : ∀ frame nested, opened = some (frame, nested) →
      invariant frame nested (text.drop skip))
    (h : .item source conditional ∈ conditionalsFrom opened skip text) :
    goal source conditional := by
  fun_induction conditionalsFrom opened skip text with
  | case1 => cases h
  | case2 => simp [Segment.plain] at h
  | case3 opened skip c rest ih => exact ih hopened h
  | case4 c rest condition length htoken frame ih =>
    obtain ⟨token, after, htake, hdrop, -, hread, hbrace, -⟩ := exists_token_append htoken
    refine ih ?_ h
    rintro opened nested ⟨rfl, rfl⟩
    rw [hdrop, show frame = { token, condition, body := [], arms := [] } by rw [← htake]]
    exact hkeeps.opened hread hbrace
  | case5 c rest _ ih =>
    rcases List.mem_cons.mp h with he | h
    · cases he
    · exact ih (fun _ _ he => by cases he) h
  | case6 frame c rest nested hnone ih =>
    refine ih ?_ h
    rintro opened inner ⟨rfl, rfl⟩
    exact hkeeps.char hnone (hopened frame nested rfl)
  | case7 frame c rest condition length htoken token ih =>
    obtain ⟨_, after, rfl, hdrop, htext, hread, -, -⟩ := exists_token_append htoken
    refine ih ?_ h
    rintro opened inner ⟨rfl, rfl⟩
    rw [hdrop]
    apply hkeeps.arm hread
    rw [← htext]
    exact hopened frame 0 rfl
  | case8 frame c rest length htoken ih =>
    rcases List.mem_cons.mp h with he | h
    · obtain ⟨rfl, rfl⟩ := Segment.item.inj he
      obtain ⟨token, after, htake, -, htext, -, -, hclosed⟩ := exists_token_append htoken
      have hframe : invariant frame 0 (c :: rest) := hopened frame 0 rfl
      rw [htake, hclosed rfl]
      rw [htext, hclosed rfl] at hframe
      exact hkeeps.closed hframe
    · exact ih (fun _ _ he => by cases he) h
  | case9 frame c rest kind length nested hbranch hclosed htoken grown inside ih =>
    obtain ⟨token, after, htake, hdrop, htext, hread, -, -⟩ := exists_token_append htoken
    refine ih ?_ h
    rintro opened inner ⟨rfl, rfl⟩
    have hdepth : kind.depthAfter nested = some inside := by
      cases kind with
      | opened condition => cases nested <;> rfl
      | branch condition =>
        cases nested with
        | zero => exact absurd rfl (hbranch condition rfl)
        | succ nested => rfl
      | closed =>
        cases nested with
        | zero => exact absurd rfl (hclosed rfl)
        | succ nested => rfl
    have hframe : invariant frame nested (c :: rest) := hopened frame nested rfl
    rw [htext] at hframe
    rw [hdrop, show grown = frame.extend token.reverse by rw [← htake]]
    exact hkeeps.inside hread hdepth hframe

/-- The source of every conditional starts with a brace and holds all it was read from. -/
private theorem frameInvariant_hasSource :
    FrameInvariant (fun frame _ _ => ∃ tail, frame.token = '{' :: tail)
      fun source conditional => conditional.HasSource source where
  opened _ hbrace := hbrace
  char _ h := by rwa [Frame.token_extend]
  arm _ h := h
  inside _ _ h := by rwa [Frame.token_extend]
  closed := by
    rintro frame - ⟨tail, htail⟩
    exact ⟨tail, htail, by rw [Frame.source_eq]; rfl⟩

/-- Every conditional of a text has its source. -/
theorem hasSource_of_mem_conditionals {text source : Text} {conditional : Conditional}
    (h : .item source conditional ∈ conditionals text) : conditional.HasSource source :=
  frameInvariant_hasSource.of_mem_conditionalsFrom (fun _ _ he => by cases he) h

/-- The branches of a list of arms keep the trimmed bodies. -/
theorem map_body_branchesOf (process : Pass) (arms : List Arm) (registry : Registry) :
    (branchesOf process arms registry).1.map Branch.body = (arms.map Arm.body).map Text.trim := by
  induction arms generalizing registry with
  | nil => rfl
  | cons arm arms ih => simp only [branchesOf, List.map_cons, ih, branchOf]

/-- Building the branches of a list of arms rewrites their bodies one after the other. -/
theorem rewrites_branchesOf {process : Pass} (hprocess : Sound process) (arms : List Arm)
    (registry : Registry) :
    Rewrites ((arms.map Arm.body).map Text.trim) registry
      ((branchesOf process arms registry).1.map Branch.processedBody)
      (branchesOf process arms registry).2 := by
  induction arms generalizing registry with
  | nil => exact .refl _ _
  | cons arm arms ih => exact (hprocess arm.body.trim registry).cons (ih _)

/-- A conditional can be replaced when its bodies can be processed. -/
theorem replaceable_conditionalKind {process : Pass} (hprocess : Sound process) {source : Text}
    {conditional : Conditional} (h : conditional.HasSource source) :
    Replaceable (conditionalKind process) source conditional := by
  intro registry
  have hbodies : (conditionalKind process conditional registry).1.bodies =
      conditional.bodies.map Text.trim := by
    simp only [conditionalKind, DirectiveKind.bodies, Conditional.bodies, List.map_cons,
      map_body_branchesOf, branchOf]
  obtain ⟨tail, htoken, rfl⟩ := h
  rw [hbodies, htoken]
  refine ⟨isSource_of_braces ?_ ?_, ?_⟩
  · exact ((conditional.holds_interior.map_trim.append_left tail).append_right ifClosing).supplies
  · change (tail ++ conditional.interior ++ ifClosing).getLast? = some '}'
    rw [List.getLast?_append]
    rfl
  · exact (hprocess conditional.body.trim registry).cons (rewrites_branchesOf hprocess _ _)

/-- Taking out conditionals is sound when processing their bodies is. -/
theorem sound_replaceConditionals {process : Pass} (hprocess : Sound process) :
    Sound (replaceConditionals process) := by
  refine sound_replace sources_conditionals fun text source conditional hm => ?_
  exact replaceable_conditionalKind hprocess (hasSource_of_mem_conditionals hm)

end ComponentFile.Template
