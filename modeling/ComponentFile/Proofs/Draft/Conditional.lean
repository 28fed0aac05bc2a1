import ComponentFile.Proofs.Draft.Accounting
import Mathlib.Algebra.BigOperators.Group.List.Basic
import Mathlib.Tactic.Abel

/-!
# The conditionals of a level

One reading of a level finds its outermost conditionals, also those in loops. Taking them out moves
their problems and those of their bodies to the directives, and leaves a level without conditionals.
-/

namespace ComponentFile.Template

open Validation

/-! ## Tokens -/

/-- The token of a loop is passed over by what looks for other keywords. -/
theorem HeaderText.passes {β : Type} {read : Text → Option β} (h : AtOpening read)
    (hnone : ∀ rest, read (eachKeyword ++ rest) = none) (header : HeaderText) :
    Passes read header.eachToken :=
  h.passes_keyword (List.cons_ne_nil '@' ['e', 'a', 'c', 'h']) (by decide) header.braceFree.1 hnone

/-- The token of a loop is no token of a conditional. -/
theorem HeaderText.passes_conditionalToken (header : HeaderText) :
    Passes conditionalToken header.eachToken :=
  header.passes atOpening_conditionalToken fun _ => conditionalToken_eq_none rfl rfl rfl rfl

/-- No insert holds a token of a conditional. -/
theorem Insert.WellFormed.passes_conditionalToken {insert : Insert} (h : insert.WellFormed) :
    Passes conditionalToken insert.text :=
  Insert.passes atOpening_conditionalToken atSigil_conditionalToken
    (fun _ => conditionalToken_eq_none rfl rfl rfl rfl) h

/-- The token of a conditional opens one. -/
theorem HeaderText.conditionalToken_ifToken (header : HeaderText) (rest : Text) :
    conditionalToken (header.ifToken ++ rest) =
      some (.opened header.text.trim, header.ifToken.length) :=
  conditionalToken_ifKeyword header.braceFree.2 header.isSpace_head rest

namespace ArmText

/-- The arm as it is read. -/
def arm (arm : ArmText) : Arm where
  token := arm.token
  condition := arm.condition.map fun header => header.text.trim
  body := arm.body

theorem token_ne_nil (arm : ArmText) : arm.token ≠ [] := by
  unfold token HeaderText.armToken
  split <;> exact List.cons_ne_nil _ _

/-- The token of a further arm starts one. -/
theorem conditionalToken_token (arm : ArmText) (rest : Text) :
    conditionalToken (arm.token ++ rest) = some (.branch arm.arm.condition, arm.token.length) := by
  obtain ⟨condition, body, problems⟩ := arm
  cases condition with
  | none =>
    have hnone : ∀ text ∈ (none : Option Text), BraceFree text := fun text hm => by cases hm
    exact conditionalToken_armToken hnone rest
  | some header =>
    have hfree : '}' ∉ [' ', 'i', 'f'] ++ header.text := by
      rw [List.mem_append, not_or]
      exact ⟨by decide, header.braceFree.2⟩
    refine conditionalToken_elseKeyword hfree (by simp [isSpace]) ?_ rest
    have hspace := header.isSpace_head
    change branchOf? (' ' :: 'i' :: 'f' :: header.text) = some (.branch (some header.text.trim))
    cases htext : header.text with
    | nil => rfl
    | cons c condition =>
      rw [htext] at hspace
      have hc : isBlank c = true := isBlank_of_isSpace (hspace c rfl)
      have hblank : Text.isBlankText (' ' :: 'i' :: 'f' :: c :: condition) = false := rfl
      have hstart : Text.trimStart (' ' :: 'i' :: 'f' :: c :: condition) =
          'i' :: 'f' :: c :: condition := rfl
      rw [branchOf?, hblank, if_neg Bool.false_ne_true, hstart]
      simp only [Text.after?, if_true, hc]

end ArmText

/-! ## Reading -/

/-- Inside an open conditional the text is added to the body as it stands. -/
def ReadsThrough (text : Text) : Prop :=
  ∀ (frame : Frame) (nested : Nat) (rest : Text),
    conditionalsFrom (some (frame, nested)) 0 (text ++ rest) =
      conditionalsFrom (some (frame.extend text.reverse, nested)) 0 rest

/-- The further arms of a nested conditional are added to the body as they stand. -/
private theorem conditionalsFrom_armTexts {arms : List ArmText}
    (h : ∀ arm ∈ arms, ReadsThrough arm.body) (frame : Frame) (nested : Nat) (rest : Text) :
    conditionalsFrom (some (frame, nested + 1)) 0 (arms.flatMap ArmText.text ++ rest) =
      conditionalsFrom (some (frame.extend (arms.flatMap ArmText.text).reverse, nested + 1)) 0
        rest := by
  induction arms generalizing frame with
  | nil => rw [List.flatMap_nil, List.reverse_nil, Frame.extend_nil, List.nil_append]
  | cons arm arms ih =>
    simp only [List.flatMap_cons, ArmText.text, List.append_assoc]
    rw [conditionalsFrom_some_nested arm.token_ne_nil (arm.conditionalToken_token _)
        (.inr (.inl ⟨_, rfl, Nat.succ_ne_zero _, rfl⟩)), h arm List.mem_cons_self,
      ih fun other hm => h other (List.mem_cons_of_mem _ hm)]
    simp only [Frame.extend_extend, List.reverse_append, List.append_assoc]

/-- Every conditional in a level closes again. -/
theorem Level.readsThrough {limit loops : Nat} {problems : Multiset DiagnosticKind} {text : Text}
    (h : Level limit loops problems text) : ReadsThrough text := by
  induction h with
  | nil =>
    intro frame nested rest
    rw [List.reverse_nil, Frame.extend_nil, List.nil_append]
  | insert insert hwell _ ih =>
    intro frame nested rest
    rw [List.append_assoc, conditionalsFrom_some_of_passes hwell.passes_conditionalToken, ih,
      Frame.extend_extend, List.reverse_append]
  | loop header _ _ ihbody ihnext =>
    intro frame nested rest
    simp only [List.append_assoc]
    rw [conditionalsFrom_some_of_passes header.passes_conditionalToken, ihbody,
      conditionalsFrom_some_of_passes passes_conditionalToken_eachClosing, ihnext]
    simp only [Frame.extend_extend, List.reverse_append, List.append_assoc]
  | conditional header arms _ _ _ ihbody iharms ihnext =>
    intro frame nested rest
    have hopened : header.ifToken ≠ [] := List.cons_ne_nil _ _
    have hclosed : ifClosing ≠ [] := List.cons_ne_nil _ _
    simp only [List.append_assoc]
    rw [conditionalsFrom_some_nested hopened (header.conditionalToken_ifToken _)
        (.inl ⟨_, rfl, rfl⟩), ihbody, conditionalsFrom_armTexts iharms,
      conditionalsFrom_some_nested hclosed (conditionalToken_ifClosing _) (.inr (.inr ⟨rfl, rfl⟩)),
      ihnext]
    simp only [Frame.extend_extend, List.reverse_append, List.append_assoc]

/-- Directly inside the outermost conditional, its further arms and the closing token complete
it. -/
private theorem conditionalsFrom_complete {arms : List ArmText}
    (h : ∀ arm ∈ arms, ReadsThrough arm.body) (frame : Frame) (rest : Text) :
    conditionalsFrom (some (frame, 0)) 0 (arms.flatMap ArmText.text ++ ifClosing ++ rest) =
      .item (frame.source ++ arms.flatMap ArmText.text ++ ifClosing)
          { frame.complete with arms := frame.complete.arms ++ arms.map ArmText.arm } ::
        conditionalsFrom none 0 rest := by
  induction arms generalizing frame with
  | nil =>
    rw [List.flatMap_nil, List.nil_append, conditionalsFrom_some_closed, List.map_nil,
      List.append_nil, List.append_nil]
  | cons arm arms ih =>
    have hnext := ih (fun other hm => h other (List.mem_cons_of_mem _ hm))
      ((frame.addArm arm.token arm.arm.condition).extend arm.body.reverse)
    simp only [List.flatMap_cons, ArmText.text, List.append_assoc] at hnext ⊢
    rw [conditionalsFrom_some_token arm.token_ne_nil (arm.conditionalToken_token _),
      h arm List.mem_cons_self, hnext, Frame.complete_addArm_extend, Frame.source_extend,
      Frame.source_addArm]
    simp only [List.map_cons, ArmText.arm, List.reverse_reverse, List.append_assoc,
      List.singleton_append]

/-- The conditional as it is read from its parts. -/
def conditionalOf (header : HeaderText) (body : Text) (arms : List ArmText) : Conditional where
  token := header.ifToken
  condition := header.text.trim
  body := body
  arms := arms.map ArmText.arm

/-- A conditional in front of a text is one item. -/
theorem conditionalsFrom_conditional (header : HeaderText) {body : Text} (hbody : ReadsThrough body)
    {arms : List ArmText} (harms : ∀ arm ∈ arms, ReadsThrough arm.body) (rest : Text) :
    conditionalsFrom none 0 (header.ifToken ++ body ++ arms.flatMap ArmText.text ++
        ifClosing ++ rest) =
      .item (header.ifToken ++ body ++ arms.flatMap ArmText.text ++ ifClosing)
          (conditionalOf header body arms) ::
        conditionalsFrom none 0 rest := by
  have hitem := conditionalsFrom_complete harms
    ((⟨header.ifToken, header.text.trim, [], []⟩ : Frame).extend body.reverse) rest
  have hopened : header.ifToken ≠ [] := List.cons_ne_nil _ _
  simp only [List.append_assoc] at hitem ⊢
  rw [conditionalsFrom_none_token hopened (header.conditionalToken_ifToken _), hbody, hitem,
    Frame.source_extend]
  simp only [conditionalOf, Frame.extend, Frame.complete, Frame.source, List.append_nil,
    List.reverse_nil, List.map_nil, List.flatMap_nil, List.nil_append, List.reverse_reverse,
    List.append_assoc]

/-- What follows a level is read as if it stood alone. -/
theorem Level.conditionalsFrom_append {limit loops : Nat} {problems : Multiset DiagnosticKind}
    {text : Text} (h : Level limit loops problems text) (rest : Text) :
    conditionalsFrom none 0 (text ++ rest) = conditionals text ++ conditionalsFrom none 0 rest := by
  unfold conditionals
  induction h generalizing rest with
  | nil => rfl
  | insert insert hwell _ ih =>
    rw [List.append_assoc, conditionalsFrom_none_of_passes hwell.passes_conditionalToken,
      conditionalsFrom_none_of_passes hwell.passes_conditionalToken, ih, List.append_assoc]
  | loop header _ _ ihbody ihnext =>
    simp only [List.append_assoc]
    simp only [conditionalsFrom_none_of_passes header.passes_conditionalToken, ihbody,
      conditionalsFrom_none_of_passes passes_conditionalToken_eachClosing, ihnext rest,
      List.append_assoc]
  | conditional header arms hbody harms _ _ _ ihnext =>
    have hreads := fun arm hm => (harms arm hm).readsThrough
    rw [List.append_assoc, conditionalsFrom_conditional header hbody.readsThrough hreads,
      conditionalsFrom_conditional header hbody.readsThrough hreads, ihnext, List.cons_append]

/-! ## Taking conditionals out -/

/-- Processing the text without the blanks around it adds its problems to the findings. -/
def Absorbs (settings : Settings) (process : Pass) (problems : Multiset DiagnosticKind)
    (text : Text) : Prop :=
  ∀ registry, faults settings (process text.trim registry).2 = faults settings registry + problems

/-- The same of every level with at most so many braces. -/
def AbsorbsLevels (settings : Settings) (limit depth : Nat) (process : Pass) : Prop :=
  ∀ ⦃problems : Multiset DiagnosticKind⦄ ⦃text : Text⦄, Level limit limit problems text →
    braces text ≤ depth → Absorbs settings process problems text

section

variable {settings : Settings} {process : Pass}

private theorem faults_branchesOf {arms : List ArmText}
    (h : ∀ arm ∈ arms, Absorbs settings process arm.problems arm.body) (registry : Registry) :
    faults settings (branchesOf process (arms.map ArmText.arm) registry).2 =
      faults settings registry + (arms.map ArmText.problems).sum := by
  induction arms generalizing registry with
  | nil => exact (add_zero _).symm
  | cons arm arms ih =>
    have hrest := ih (fun other hm => h other (List.mem_cons_of_mem _ hm))
      (process arm.body.trim registry).2
    rw [h arm List.mem_cons_self registry] at hrest
    rw [List.map_cons, List.map_cons, List.sum_cons, ← add_assoc, ← hrest]
    rfl

/-- The findings about the arms of a conditional are those about their conditions. -/
private theorem kindFaults_branchesOf (process : Pass) (arms : List ArmText) (registry : Registry)
    (index : Nat) :
    ((((branchesOf process (arms.map ArmText.arm) registry).1.filterMap fun branch =>
      match branch.kind with
      | .elseIf condition =>
        if condition.isBlankText then some (Finding.emptyBranchCondition index) else none
      | _ => none).map Finding.kind : List DiagnosticKind) : Multiset DiagnosticKind) =
      (arms.map ArmText.conditionProblems).sum := by
  induction arms generalizing registry with
  | nil => rfl
  | cons arm arms ih =>
    have hrest := ih (process arm.body.trim registry).2
    obtain ⟨condition, body, problems⟩ := arm
    rw [List.map_cons, List.map_cons, List.sum_cons, ← hrest]
    cases condition with
    | none => exact (zero_add _).symm
    | some header =>
      cases hblank : header.text.isBlankText with
      | true =>
        simp only [branchesOf, branchOf, ArmText.arm, Option.map_some, List.filterMap_cons,
          Text.isBlankText_trim, ArmText.conditionProblems, HeaderText.armProblems,
          HeaderText.conditionProblems, hblank, if_true]
        rfl
      | false =>
        simp only [branchesOf, branchOf, ArmText.arm, Option.map_some, List.filterMap_cons,
          Text.isBlankText_trim, ArmText.conditionProblems, HeaderText.armProblems,
          HeaderText.conditionProblems, hblank, Bool.false_eq_true, if_false, zero_add]

/-- The findings about a conditional are those about its conditions. -/
private theorem kindFaults_conditional (header : HeaderText) (arms : List ArmText) (first : Branch)
    (hfirst : first.kind = .primary) (registry : Registry) {directive : Directive}
    (hkind : directive.kind = .conditional header.text.trim
      (first :: (branchesOf process (arms.map ArmText.arm) registry).1)) :
    kindFaults settings directive =
      header.conditionProblems + (arms.map ArmText.conditionProblems).sum := by
  have harms := kindFaults_branchesOf process arms registry directive.index
  rw [← harms, kindFaults, checkDirective, hkind]
  simp only [List.filterMap_cons, hfirst, List.map_append, Text.isBlankText_trim,
    ← Multiset.coe_add, HeaderText.conditionProblems]
  congr 1
  split <;> rfl

/-- The problems of an arm are that of its condition and those in its body. -/
private theorem sum_allProblems (arms : List ArmText) : (arms.map ArmText.allProblems).sum =
    (arms.map ArmText.conditionProblems).sum + (arms.map ArmText.problems).sum :=
  List.sum_map_add

/-- Building a conditional moves its problems and those in its bodies to the directives. -/
private theorem faults_conditionalOf (header : HeaderText) {body : Text} {arms : List ArmText}
    {inside : Multiset DiagnosticKind} (hbody : Absorbs settings process inside body)
    (harms : ∀ arm ∈ arms, Absorbs settings process arm.problems arm.body) (registry : Registry)
    {directive : Directive}
    (hkind : directive.kind =
      (conditionalKind process (conditionalOf header body arms) registry).1) :
    faults settings (conditionalKind process (conditionalOf header body arms) registry).2 +
        kindFaults settings directive =
      faults settings registry +
        (header.conditionProblems + inside + (arms.map ArmText.allProblems).sum) := by
  have hfaults : faults settings
        (conditionalKind process (conditionalOf header body arms) registry).2 =
      faults settings (process body.trim registry).2 + (arms.map ArmText.problems).sum :=
    faults_branchesOf harms (process body.trim registry).2
  rw [hfaults, hbody registry, kindFaults_conditional header arms _ rfl _ hkind, sum_allProblems]
  abel

/-- Taking out the conditionals of a level leaves a level without conditionals. -/
theorem Level.accounts_conditionals {limit depth loops : Nat} {problems : Multiset DiagnosticKind}
    {text : Text} (hprocess : AbsorbsLevels settings limit depth process)
    (h : Level limit loops problems text) (hbraces : braces text ≤ depth + 1) :
    Accounts settings (conditionalKind process) (conditionals text) problems
      (Remnant (fun _ => True) loops) := by
  induction h with
  | nil loops => exact accounts_nil loops
  | insert insert hwell _ ih =>
    rw [braces_append] at hbraces
    rw [conditionals, conditionalsFrom_none_of_passes hwell.passes_conditionalToken]
    exact (ih (by omega)).insert insert hwell trivial
  | loop header hbody _ ihbody ihnext =>
    simp only [braces_append] at hbraces
    rw [conditionals, List.append_assoc, List.append_assoc,
      conditionalsFrom_none_of_passes header.passes_conditionalToken, hbody.conditionalsFrom_append,
      conditionalsFrom_none_of_passes passes_conditionalToken_eachClosing]
    exact (ihbody (by omega)).around header (ihnext (by omega))
  | conditional header arms hbody harms _ _ _ ihnext =>
    have htoken : 0 < braces header.ifToken := braces_pos rfl
    simp only [braces_append] at hbraces
    rw [conditionals, conditionalsFrom_conditional header hbody.readsThrough
      fun arm hm => (harms arm hm).readsThrough]
    have hinside (arm : ArmText) (hm : arm ∈ arms) :
        Absorbs settings process arm.problems arm.body := by
      refine hprocess (harms arm hm) ?_
      have hpiece : arm.body <:+: arms.flatMap ArmText.text := by
        obtain ⟨before, after, rfl⟩ := List.append_of_mem hm
        rw [List.flatMap_append, List.flatMap_cons, ArmText.text]
        exact ⟨before.flatMap ArmText.text ++ arm.token, after.flatMap ArmText.text, by
          simp only [List.append_assoc]⟩
      have hle := braces_le_of_isInfix hpiece
      omega
    have hbuild := faults_conditionalOf header (hprocess hbody (by omega)) hinside
    exact (ihnext (by omega)).mark (fun _ => trivial) _ fun registry start => hbuild registry rfl

end

end ComponentFile.Template
