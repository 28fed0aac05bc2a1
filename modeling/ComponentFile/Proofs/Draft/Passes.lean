import ComponentFile.Proofs.Draft.Loop
import ComponentFile.Proofs.Template.Limit

/-!
# Passes over a level

Raw markup and interpolations have no problems, so taking them out leaves the problems of a level as
they are. With the passes over conditionals and loops this gives what a fragment is processed to: a
text without braces, and findings about exactly the problems of the level.
-/

namespace ComponentFile.Template

open Validation

/-! ## Inserts -/

/-- The insert is not raw markup. -/
def Insert.NotRaw : Insert → Prop
  | .rawMarkup _ => False
  | .char _ | .interpolation _ => True

/-- The insert is a character. -/
def Insert.IsChar : Insert → Prop
  | .char _ => True
  | .interpolation _ | .rawMarkup _ => False

/-- Of the inserts in `keep`, a recogniser passes over those in `other` and finds all the others,
and there is nothing to say about the directives built from them. -/
structure Extracts (settings : Settings) (recognise : Recogniser Text) (kind : Text → DirectiveKind)
    (keep other : Insert → Prop) : Prop where
  quiet : ∀ value (directive : Directive), directive.kind = kind value →
    kindFaults settings directive = 0
  char : ∀ c, other (.char c)
  finds : ∀ insert : Insert, insert.WellFormed → keep insert →
    (other insert ∧ Passes recognise insert.text) ∨
      ∃ value, insert.text ≠ [] ∧ ∀ rest, recognise (insert.text ++ rest) =
        some (value, insert.text.length)

/-- Raw markup is found, and nothing else is. -/
theorem extracts_rawMarkup (settings : Settings) (keep : Insert → Prop) :
    Extracts settings rawMarkup .rawMarkup keep Insert.NotRaw where
  quiet := by
    intro value directive hkind
    rw [kindFaults, checkDirective, hkind]
    rfl
  char := fun _ => trivial
  finds := by
    intro insert hwell _
    cases insert with
    | char c => exact .inl ⟨trivial, atOpening_rawMarkup.passes_of_not_mem hwell.1⟩
    | interpolation expression =>
      exact .inl ⟨trivial, passes_interpolation atOpening_rawMarkup atSigil_rawMarkup hwell⟩
    | rawMarkup content => exact .inr ⟨content.trim, List.cons_ne_nil _ _, rawMarkup_append hwell⟩

/-- The tokens of loops are no raw markup. -/
theorem passes_rawMarkup_tokens :
    (∀ header : HeaderText, Passes rawMarkup header.eachToken) ∧ Passes rawMarkup eachClosing :=
  ⟨fun header => header.passes atOpening_rawMarkup fun _ => rawMarkup_eq_none rfl,
    passes_eachClosing atOpening_rawMarkup fun _ => rawMarkup_eq_none rfl⟩

/-- Where no raw markup is left, interpolations are found and nothing else is. -/
theorem extracts_interpolation (settings : Settings) :
    Extracts settings interpolation .interpolation Insert.NotRaw Insert.IsChar where
  quiet := by
    intro value directive hkind
    rw [kindFaults, checkDirective, hkind]
    rfl
  char := fun _ => trivial
  finds := by
    intro insert hwell hkeep
    cases insert with
    | char c => exact .inl ⟨trivial, atOpening_interpolation.passes_of_not_mem hwell.1⟩
    | interpolation expression =>
      exact .inr ⟨expression.trim, List.cons_ne_nil _ _, interpolation_append hwell⟩
    | rawMarkup content => exact hkeep.elim

/-- A text that is scanned into segments in front of every rest has these segments. -/
theorem segments_eq_of_scan {β : Type} {recognise : Recogniser β} {text : Text}
    {segments : List (Segment β)}
    (h : ∀ rest, Segment.scan recognise 0 (text ++ rest) = segments ++
      Segment.scan recognise 0 rest) :
    Segment.segments recognise text = segments := by
  have hall := h []
  rwa [List.append_nil, Segment.scan, List.append_nil] at hall

section

variable {settings : Settings} {recognise : Recogniser Text} {kind : Text → DirectiveKind}
variable {keep other : Insert → Prop} {loops : Nat}
  {problems : Multiset DiagnosticKind} {text : Text}

/-- The inserts that a recogniser finds can be taken out, where it passes over the tokens of
loops. -/
theorem Extracts.exists_segments (hextracts : Extracts settings recognise kind keep other)
    (htokens : loops ≠ 0 →
      (∀ header : HeaderText, Passes recognise header.eachToken) ∧ Passes recognise eachClosing)
    (h : Remnant keep loops problems text) :
    ∃ segments, (∀ rest, Segment.scan recognise 0 (text ++ rest) =
        segments ++ Segment.scan recognise 0 rest) ∧
      Accounts settings (fun value registry => (kind value, registry)) segments problems
        (Remnant other loops) := by
  induction h with
  | nil loops => exact ⟨[], fun rest => rfl, accounts_nil loops⟩
  | insert insert hwell hkeep _ ih =>
    obtain ⟨segments, hscan, haccounts⟩ := ih htokens
    rcases hextracts.finds insert hwell hkeep with ⟨hother, hpass⟩ | ⟨value, hne, hfound⟩
    · refine ⟨_, fun rest => ?_, haccounts.insert insert hwell hother⟩
      rw [List.append_assoc, Segment.scan_of_passes hpass, hscan, List.append_assoc]
    · have hmark := haccounts.mark hextracts.char insert.text fun registry start =>
        congrArg (faults settings registry + ·) (hextracts.quiet value _ rfl)
      rw [zero_add] at hmark
      refine ⟨_, fun rest => ?_, hmark⟩
      rw [List.append_assoc, Segment.scan_item hne (hfound _), hscan, List.cons_append]
  | loop header _ _ ihbody ihnext =>
    obtain ⟨htoken, hclosing⟩ := htokens (Nat.succ_ne_zero _)
    obtain ⟨inner, hinner, haccountsInner⟩ := ihbody fun _ => ⟨htoken, hclosing⟩
    obtain ⟨segments, hscan, haccounts⟩ := ihnext htokens
    refine ⟨_, fun rest => ?_, haccountsInner.around header haccounts⟩
    simp only [List.append_assoc]
    rw [Segment.scan_of_passes (htoken header), hinner, Segment.scan_of_passes hclosing, hscan]

/-- Taking out inserts leaves the problems in the text. -/
theorem Extracts.accounts (hextracts : Extracts settings recognise kind keep other)
    (htokens : loops ≠ 0 →
      (∀ header : HeaderText, Passes recognise header.eachToken) ∧ Passes recognise eachClosing)
    (h : Remnant keep loops problems text) :
    Accounts settings (fun value registry => (kind value, registry))
      (Segment.segments recognise text) problems
      (Remnant other loops) := by
  obtain ⟨segments, hscan, haccounts⟩ := hextracts.exists_segments htokens h
  rwa [segments_eq_of_scan hscan]

end

/-! ## Block directives -/

section

variable {settings : Settings} {limit depth loops : Nat}
  {problems : Multiset DiagnosticKind} {text : Text}
variable {process : Pass}

/-- A pass leaves a text and problems as `goal` says, and the other problems go to the
directives. -/
def Leaves (settings : Settings) (registry : Registry) (problems : Multiset DiagnosticKind)
    (goal : Multiset DiagnosticKind → Text → Prop) (result : Text × Registry) : Prop :=
  ∃ kept, goal kept result.1 ∧ faults settings result.2 + kept = faults settings registry + problems

/-- What a pass leaves can be said of two passes in a row. -/
theorem Leaves.trans {registry : Registry} {middle result : Text × Registry}
    {goal other : Multiset DiagnosticKind → Text → Prop}
    (h : Leaves settings registry problems goal middle)
    (hnext : ∀ kept, goal kept middle.1 → Leaves settings middle.2 kept other result) :
    Leaves settings registry problems other result := by
  obtain ⟨kept, hgoal, hfaults⟩ := h
  obtain ⟨last, hother, hmore⟩ := hnext kept hgoal
  exact ⟨last, hother, hmore.trans hfaults⟩

/-- One pass over block directives leaves no conditionals, no raw markup and shorter chains of
loops. -/
theorem Level.leaves_blockPass (hsound : Sound process)
    (hprocess : AbsorbsLevels settings limit depth process) (h : Level limit loops problems text)
    (hloops : loops ≤ limit) (hbraces : braces text ≤ depth + 1) (registry : Registry) :
    Leaves settings registry problems (Remnant Insert.NotRaw (loops - 1))
      (blockPass process text registry) := by
  have hfirst : Leaves settings registry problems (Remnant (fun _ => True) loops)
      (replaceConditionals process text registry) :=
        h.accounts_conditionals hprocess hbraces 0 registry
  refine hfirst.trans fun kept hkept => ?_
  have hless : braces (replaceConditionals process text registry).1 ≤ depth + 1 :=
    (isMeasure_braces.le_of_rewrites (sound_replaceConditionals hsound text registry)).trans hbraces
  have hsecond := hkept.accounts_loops hprocess (fun _ => trivial) hloops hless 0
    (replaceConditionals process text registry).2
  refine Leaves.trans hsecond fun last hlast => ?_
  exact (extracts_rawMarkup settings _).accounts (fun _ => passes_rawMarkup_tokens) hlast 0 _

/-- A pass that adds nothing changes nothing, so stopping after it makes no difference. -/
theorem repeatPass_blockPass_succ (hsound : Sound process) (count : Nat) (text : Text)
    (registry : Registry) :
    repeatPass (blockPass process) (count + 1) text registry =
      repeatPass (blockPass process) count (blockPass process text registry).1
        (blockPass process text registry).2 := by
  rcases progress_blockPass hsound text registry with ⟨_, hsame⟩ | ⟨hsize, _⟩
  · have hstays (count : Nat) :
        repeatPass (blockPass process) count text registry = (text, registry) := by
      cases count with
      | zero => rfl
      | succ count => simp only [repeatPass, hsame, if_true]
    rw [hstays, hsame, hstays]
  · rw [repeatPass]
    exact if_neg (Nat.ne_of_gt hsize)

/-- Repeated passes leave characters and interpolations, if there are as many passes as loops
nest. -/
theorem Level.leaves_repeatPass (hsound : Sound process)
    (hprocess : AbsorbsLevels settings limit depth process) (count : Nat)
    (h : Level limit loops problems text) (hloops : loops ≤ limit) (hcount : loops ≤ count)
    (hflat : count = 0 → Remnant Insert.NotRaw 0 problems text) (hbraces : braces text ≤ depth + 1)
    (registry : Registry) :
    Leaves settings registry problems (Remnant Insert.NotRaw 0)
      (repeatPass (blockPass process) count text registry) := by
  induction count generalizing loops problems text registry with
  | zero => exact ⟨problems, hflat rfl, rfl⟩
  | succ count ih =>
    rw [repeatPass_blockPass_succ hsound]
    refine (h.leaves_blockPass hsound hprocess hloops hbraces registry).trans fun kept hkept => ?_
    refine ih (hkept.level limit) (by omega) (by omega) (fun hzero => ?_) ?_ _
    · have hnone : loops - 1 = 0 := by omega
      rwa [hnone] at hkept
    · exact (isMeasure_braces.le_of_rewrites (sound_blockPass hsound text registry)).trans hbraces

end

/-! ## Fragments -/

/-- A level of characters has no braces. -/
theorem Remnant.not_mem {problems : Multiset DiagnosticKind} {text : Text}
    (h : Remnant Insert.IsChar 0 problems text) : '{' ∉ text := by
  generalize hloops : 0 = loops at h
  induction h with
  | nil => exact List.not_mem_nil
  | insert insert hwell hchar _ ih =>
    cases insert with
    | char c =>
      rw [List.mem_append, not_or]
      exact ⟨hwell.1, ih hloops⟩
    | interpolation expression => exact hchar.elim
    | rawMarkup content => exact hchar.elim
  | loop => cases hloops

/-- Processing a level leaves no braces and adds exactly its problems to the findings. -/
theorem Level.faults_processAt {settings : Settings} {limit : Nat} (hlimit : 1 ≤ limit)
    (depth : Nat) {problems : Multiset DiagnosticKind} {text : Text}
    (h : Level limit limit problems text) (hbraces : braces text ≤ depth) (registry : Registry) :
    '{' ∉ (processAt limit depth text registry).1 ∧
      faults settings (processAt limit depth text registry).2 =
        faults settings registry + problems := by
  induction depth generalizing problems text registry with
  | zero =>
    have hfree : '{' ∉ text := List.count_eq_zero.mp (Nat.le_zero.mp hbraces)
    rw [h.problems_eq_zero hfree, add_zero]
    exact ⟨hfree, rfl⟩
  | succ depth ih =>
    have hprocess : AbsorbsLevels settings limit depth (processAt limit depth) := by
      intro inside body hbody hless registry
      exact (ih hbody.trim ((braces_le_of_isInfix (Text.trim_isInfix body)).trans hless) registry).2
    have hblocks := h.leaves_repeatPass (sound_processAt limit depth) hprocess limit le_rfl le_rfl
      (fun hzero => by omega) hbraces registry
    have hlast : Leaves settings registry problems (Remnant Insert.IsChar 0)
        (processAt limit (depth + 1) text registry) :=
      hblocks.trans fun kept hkept => (extracts_interpolation settings).accounts
        (absurd rfl) hkept 0 _
    obtain ⟨kept, hkept, hfaults⟩ := hlast
    rw [(hkept.level limit).problems_eq_zero hkept.not_mem, add_zero] at hfaults
    exact ⟨hkept.not_mem, hfaults⟩

/-- A run of replacements starts no component. -/
theorem isTagless_of_rewrites {texts others : List Text} {registry final : Registry}
    (h : Rewrites texts registry others final) (htexts : ∀ text ∈ texts, isTagless text = true) :
    ∀ text ∈ others, isTagless text = true := by
  induction h with
  | refl => exact htexts
  | step left before after right directive _ _ _ _ _ ih =>
    obtain ⟨inner, he, _⟩ := Placeholder.render_edges directive.isMarker_placeholder
    refine ih fun text hm => ?_
    rcases List.mem_append.mp hm with hm | hm
    · exact htexts text (List.mem_append_left _ hm)
    rcases List.mem_cons.mp hm with rfl | hm
    · have htext := htexts _ (List.mem_append_right _ List.mem_cons_self)
      obtain ⟨hfront, hafter, _⟩ := isTagless_append_iff.mp htext
      obtain ⟨hbefore, _, _⟩ := isTagless_append_iff.mp hfront
      rw [isTagless_append_iff, isTagless_append_iff]
      refine ⟨⟨hbefore, isTagless_render directive, fun _ => ?_⟩, hafter, fun hlast => ?_⟩
      · rw [he]
        rfl
      · rw [he, ← List.cons_append, ← List.cons_append, ← List.append_assoc,
          List.getLast?_append] at hlast
        cases hlast
    · exact htexts text (List.mem_append_right _ (List.mem_cons_of_mem _ hm))

/-- The findings about a template without components are the problems of its text. -/
theorem Level.faults_process (settings : Settings) {problems : Multiset DiagnosticKind}
    {text : Text} (h : Level settings.passLimit settings.passLimit problems text)
    (htagless : isTagless text = true) (hlimit : 1 ≤ settings.passLimit) :
    faults settings (process settings text).directives = problems := by
  let fragment := processFragment settings.passLimit text #[]
  have hfaults : faults settings fragment.2 = faults settings #[] + problems :=
    (h.faults_processAt hlimit (braces text) le_rfl #[]).2
  have htag : isTagless fragment.1 = true := by
    have hone : ∀ other ∈ [text], isTagless other = true := by
      intro other hm
      rwa [List.mem_singleton.mp hm]
    exact isTagless_of_rewrites (sound_processFragment settings.passLimit text #[]) hone _
      List.mem_cons_self
  have hdirectives : (process settings text).directives = fragment.2 :=
    congrArg Prod.snd (replaceComponents_of_isTagless settings.runtimeAttribute htag fragment.2)
  rw [hdirectives, hfaults]
  exact zero_add problems

end ComponentFile.Template
