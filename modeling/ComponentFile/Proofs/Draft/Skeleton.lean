import ComponentFile.Proofs.Draft.Passes

/-!
# What stays on the outermost level

Every pass puts placeholders for blocks and keeps the markup around them. So what is left of a
template is the markup of its outermost level, in order, with a placeholder for each block; nothing
of what stands inside a block is left there.
-/

namespace ComponentFile.Template

open Validation

/-! ## Texts with blocks -/

/-- The text is made up of runs of markup, blocks and placeholders. The parts are the runs in order,
with `none` for each block and each placeholder. The bodies of loops are as `body` says of the loops
nested in them, the other blocks are as `block` says. -/
inductive Skeleton (body : Nat → Text → Prop) (block : Text → Prop) :
    Nat → List (Option Text) → Text → Prop
  | nil (loops : Nat) : Skeleton body block loops [] []
  | run {loops : Nat} {parts : List (Option Text)} {text : Text} (run : Text)
    (hfree : BraceFree run)
    (hnext : Skeleton body block loops parts text) :
    Skeleton body block loops (some run :: parts) (run ++ text)
  | mark {loops : Nat} {parts : List (Option Text)} {text : Text} (directive : Directive)
    (hnext : Skeleton body block loops parts text) :
    Skeleton body block loops (none :: parts) (directive.placeholder.render ++ text)
  | loop {loops : Nat} {parts : List (Option Text)} {inside text : Text} (header : HeaderText)
    (hbody : body loops inside) (hnext : Skeleton body block (loops + 1) parts text) :
    Skeleton body block (loops + 1) (none :: parts)
      (header.eachToken ++ inside ++ eachClosing ++ text)
  | block {loops : Nat} {parts : List (Option Text)} {source text : Text} (hsource : block source)
    (hnext : Skeleton body block loops parts text) :
    Skeleton body block loops (none :: parts) (source ++ text)

/-- The text is a conditional whose bodies are levels. -/
inductive IsConditional (limit : Nat) : Text → Prop
  | mk {inside : Multiset DiagnosticKind} {body : Text} (header : HeaderText) (arms : List ArmText)
    (hbody : Level limit limit inside body)
    (harms : ∀ arm ∈ arms, Level limit limit arm.problems arm.body) :
    IsConditional limit (header.ifToken ++ body ++ arms.flatMap ArmText.text ++ ifClosing)

/-- A text with loops and conditionals. -/
abbrev Planned (limit : Nat) : Nat → List (Option Text) → Text → Prop :=
  Skeleton (fun loops text => ∃ problems, Level limit loops problems text) (IsConditional limit)

/-- A text without conditionals, with inserts as `keep` says in its loops. -/
abbrev Staged (keep : Insert → Prop) : Nat → List (Option Text) → Text → Prop :=
  Skeleton (fun loops text => ∃ problems, Remnant keep loops problems text) fun _ => False

/-- Without conditionals there still may be some. -/
theorem Skeleton.planned {keep : Insert → Prop} {loops : Nat} {parts : List (Option Text)}
    {text : Text} (h : Staged keep loops parts text) (limit : Nat) :
    Planned limit loops parts text := by
  induction h with
  | nil loops => exact .nil loops
  | run run hfree _ ih => exact .run run hfree ih
  | mark directive _ ih => exact .mark directive ih
  | loop header hbody _ ih =>
    obtain ⟨problems, hbody⟩ := hbody
    exact .loop header ⟨problems, hbody.level limit⟩ ih
  | block hsource => exact hsource.elim

/-! ## Replacing segments -/

section

variable {β : Type} {build : β → Registry → DirectiveKind × Registry} {goal other : Text → Prop}
variable {segments : List (Segment β)}

/-- Replacing the segments leaves a text as `goal` says. -/
def Turns (build : β → Registry → DirectiveKind × Registry) (segments : List (Segment β))
    (goal : Text → Prop) : Prop :=
  ∀ offset registry, goal (Registry.replaceFrom build offset segments registry).1

/-- Segments in a row leave their texts in a row. -/
theorem Turns.append {next : Text → Prop} {more : List (Segment β)} (h : Turns build segments goal)
    (hmore : Turns build more next)
    (hgoal : ∀ front back, goal front → next back → other (front ++ back)) :
    Turns build (segments ++ more) other := by
  intro offset registry
  rw [Registry.replaceFrom_append]
  exact hgoal _ _ (h _ _) (hmore _ _)

/-- Plain text stays. -/
theorem Turns.plain_append (h : Turns build segments goal) (text : Text)
    (hgoal : ∀ rest, goal rest → other (text ++ rest)) :
    Turns build (Segment.plain text ++ segments) other := by
  have htext : Turns build (Segment.plain text) (· = text) := fun offset registry => by
    rw [Registry.replaceFrom_plain]
  exact htext.append h fun front back hfront hback => hfront ▸ hgoal back hback

/-- An item becomes a placeholder. -/
theorem Turns.item (h : Turns build segments goal) (source : Text) (value : β)
    (hgoal : ∀ (directive : Directive) rest, goal rest →
      other (directive.placeholder.render ++ rest)) :
    Turns build (.item source value :: segments) other :=
  fun _ _ => hgoal _ _ (h _ _)

/-- The tokens of a loop stay around what is left of its body. -/
theorem Turns.around {body : Text → Prop} {inner : List (Segment β)} (header : HeaderText)
    (hbody : Turns build inner body) (h : Turns build segments goal)
    (hgoal : ∀ inside rest, body inside → goal rest →
      other (header.eachToken ++ inside ++ eachClosing ++ rest)) :
    Turns build (Segment.plain header.eachToken ++
      (inner ++ (Segment.plain eachClosing ++ segments))) other := by
  have hafter : Turns build (Segment.plain eachClosing ++ segments) fun rest =>
      ∃ back, goal back ∧ rest = eachClosing ++ back :=
    h.plain_append eachClosing fun back hback => ⟨back, hback, rfl⟩
  have hinside : Turns build (inner ++ (Segment.plain eachClosing ++ segments)) fun rest =>
      ∃ inside back, body inside ∧ goal back ∧ rest = inside ++ (eachClosing ++ back) := by
    refine hbody.append hafter ?_
    rintro inside rest hinside ⟨back, hback, rfl⟩
    exact ⟨inside, back, hinside, hback, rfl⟩
  refine hinside.plain_append header.eachToken ?_
  rintro rest ⟨inside, back, hinside, hback, rfl⟩
  simpa only [List.append_assoc] using hgoal inside back hinside hback

/-- The problems are not needed to say what text is left. -/
theorem Accounts.turns {settings : Settings} {problems : Multiset DiagnosticKind}
    {goal : Multiset DiagnosticKind → Text → Prop}
    (h : Accounts settings build segments problems goal) :
    Turns build segments fun text => ∃ kept, goal kept text := by
  intro offset registry
  obtain ⟨kept, hkept, -⟩ := h offset registry
  exact ⟨kept, hkept⟩

end

/-! ## The passes -/

section

variable {settings : Settings} {limit depth loops : Nat} {parts : List (Option Text)} {text : Text}
variable {keep : Insert → Prop} {process : Pass}

/-- Taking out conditionals keeps the runs. -/
theorem Skeleton.turns_conditionals (hprocess : AbsorbsLevels settings limit depth process)
    (h : Planned limit loops parts text) (hbraces : braces text ≤ depth + 1) :
    Turns (conditionalKind process) (conditionals text) (Staged (fun _ => True) loops parts) := by
  induction h with
  | nil loops => exact fun _ _ => .nil loops
  | run run hfree _ ih =>
    rw [braces_append] at hbraces
    rw [conditionals,
      conditionalsFrom_none_of_passes (atOpening_conditionalToken.passes_of_not_mem hfree.1)]
    exact (ih (by omega)).plain_append run fun _ hrest => .run run hfree hrest
  | mark directive _ ih =>
    rw [braces_append] at hbraces
    rw [conditionals, conditionalsFrom_none_of_passes
      (atOpening_conditionalToken.passes_of_not_mem (not_mem_render directive))]
    exact (ih (by omega)).plain_append _ fun _ hrest => .mark directive hrest
  | loop header hbody _ ih =>
    obtain ⟨problems, hbody⟩ := hbody
    simp only [braces_append] at hbraces
    rw [conditionals, List.append_assoc, List.append_assoc,
      conditionalsFrom_none_of_passes header.passes_conditionalToken, hbody.conditionalsFrom_append,
      conditionalsFrom_none_of_passes passes_conditionalToken_eachClosing]
    exact (hbody.accounts_conditionals hprocess (by omega)).turns.around header (ih (by omega))
      fun _ _ hinside hrest => .loop header hinside hrest
  | block hsource _ ih =>
    obtain ⟨header, arms, hbody, harms⟩ := hsource
    rw [braces_append] at hbraces
    rw [conditionals, conditionalsFrom_conditional header hbody.readsThrough
      fun arm hm => (harms arm hm).readsThrough]
    exact (ih (by omega)).item _ _ fun directive _ hrest => .mark directive hrest

/-- The innermost loops can be taken out. Chains of loops get shorter, and the runs stay. -/
theorem Skeleton.exists_loops (hprocess : AbsorbsLevels settings limit depth process)
    (hkeep : ∀ c, keep (.char c)) (h : Staged keep loops parts text) (hloops : loops ≤ limit)
    (hbraces : braces text ≤ depth + 1) :
    ∃ segments, ReadsInto text segments ∧
      Turns (loopKind process) segments (Staged keep (loops - 1) parts) := by
  induction h with
  | nil loops => exact ⟨[], readsInto_nil, fun _ _ => .nil _⟩
  | run run hfree _ ih =>
    rw [braces_append] at hbraces
    obtain ⟨segments, hreads, hturns⟩ := ih hloops (by omega)
    exact ⟨_, hreads.plain (atOpening_eachClosing.passes_of_not_mem hfree.1)
        (atOpening_eachKeyword.passes_of_not_mem hfree.1),
      hturns.plain_append run fun _ hrest => .run run hfree hrest⟩
  | mark directive _ ih =>
    rw [braces_append] at hbraces
    obtain ⟨segments, hreads, hturns⟩ := ih hloops (by omega)
    exact ⟨_, hreads.plain (atOpening_eachClosing.passes_of_not_mem (not_mem_render directive))
        (atOpening_eachKeyword.passes_of_not_mem (not_mem_render directive)),
      hturns.plain_append _ fun _ hrest => .mark directive hrest⟩
  | @loop loops parts inside text header hbody _ ih =>
    obtain ⟨problems, hbody⟩ := hbody
    have htoken : 0 < braces header.eachToken := braces_pos rfl
    simp only [braces_append] at hbraces
    obtain ⟨segments, hreads, hturns⟩ := ih hloops (by omega)
    rcases hbody.flat_or_not_passes with hflat | hloop
    · exact ⟨_, hreads.loop header hflat.passes.1 hflat.passes.2,
        hturns.item _ _ fun directive _ hrest => .mark directive hrest⟩
    · obtain ⟨inner, hinner, haccounts⟩ := hbody.exists_loops hprocess hkeep (by omega) (by omega)
      -- the body has a loop, so its own chains are not empty
      obtain ⟨fewer, rfl⟩ : ∃ fewer, loops = fewer + 1 := by
        cases loops with
        | zero => exact absurd hbody.passes.2 hloop
        | succ fewer => exact ⟨fewer, rfl⟩
      exact ⟨_, hinner.around header hloop hreads,
        haccounts.turns.around header hturns fun _ _ hinside hrest => .loop header hinside hrest⟩
  | block hsource => exact hsource.elim

/-- The inserts in loops that a recogniser finds can be taken out, and the runs stay. -/
theorem Skeleton.exists_segments {recognise : Recogniser Text} {kind : Text → DirectiveKind}
    {other : Insert → Prop} (h : Staged keep loops parts text)
    (hextracts : Extracts settings recognise kind keep other) (hopening : AtOpening recognise)
    (htokens : loops ≠ 0 →
      (∀ header : HeaderText, Passes recognise header.eachToken) ∧ Passes recognise eachClosing) :
    ∃ segments, (∀ rest, Segment.scan recognise 0 (text ++ rest) =
        segments ++ Segment.scan recognise 0 rest) ∧
      Turns (fun value registry => (kind value, registry)) segments (Staged other loops parts) := by
  induction h with
  | nil loops => exact ⟨[], fun rest => rfl, fun _ _ => .nil loops⟩
  | run run hfree _ ih =>
    obtain ⟨segments, hscan, hturns⟩ := ih htokens
    refine ⟨_, fun rest => ?_, hturns.plain_append run fun _ hrest => .run run hfree hrest⟩
    rw [List.append_assoc, Segment.scan_of_passes (hopening.passes_of_not_mem hfree.1), hscan,
      List.append_assoc]
  | mark directive _ ih =>
    obtain ⟨segments, hscan, hturns⟩ := ih htokens
    refine ⟨_, fun rest => ?_, hturns.plain_append _ fun _ hrest => .mark directive hrest⟩
    rw [List.append_assoc,
      Segment.scan_of_passes (hopening.passes_of_not_mem (not_mem_render directive)), hscan,
      List.append_assoc]
  | loop header hbody _ ih =>
    obtain ⟨problems, hbody⟩ := hbody
    obtain ⟨htoken, hclosing⟩ := htokens (Nat.succ_ne_zero _)
    obtain ⟨inner, hinner, haccounts⟩ :=
      hextracts.exists_segments (fun _ => ⟨htoken, hclosing⟩) hbody
    obtain ⟨segments, hscan, hturns⟩ := ih htokens
    refine ⟨_, fun rest => ?_,
      haccounts.turns.around header hturns fun _ _ hinside hrest => .loop header hinside hrest⟩
    simp only [List.append_assoc]
    rw [Segment.scan_of_passes (htoken header), hinner, Segment.scan_of_passes hclosing, hscan]
  | block hsource => exact hsource.elim

/-- Taking out inserts keeps the runs. -/
theorem Skeleton.turns_segments {recognise : Recogniser Text} {kind : Text → DirectiveKind}
    {other : Insert → Prop} (h : Staged keep loops parts text)
    (hextracts : Extracts settings recognise kind keep other) (hopening : AtOpening recognise)
    (htokens : loops ≠ 0 →
      (∀ header : HeaderText, Passes recognise header.eachToken) ∧ Passes recognise eachClosing) :
    Turns (fun value registry => (kind value, registry)) (Segment.segments recognise text)
      (Staged other loops parts) := by
  obtain ⟨segments, hscan, hturns⟩ := h.exists_segments hextracts hopening htokens
  rwa [segments_eq_of_scan hscan]

/-- One pass over block directives keeps the runs and leaves shorter chains of loops. -/
theorem Skeleton.staged_blockPass (hsound : Sound process)
    (hprocess : AbsorbsLevels settings limit depth process) (h : Planned limit loops parts text)
    (hloops : loops ≤ limit) (hbraces : braces text ≤ depth + 1) (registry : Registry) :
    Staged Insert.NotRaw (loops - 1) parts (blockPass process text registry).1 := by
  have hfirst : Staged (fun _ => True) loops parts (replaceConditionals process text registry).1 :=
    h.turns_conditionals hprocess hbraces 0 registry
  have hless : braces (replaceConditionals process text registry).1 ≤ depth + 1 :=
    (isMeasure_braces.le_of_rewrites (sound_replaceConditionals hsound text registry)).trans hbraces
  obtain ⟨segments, hreads, hturns⟩ := hfirst.exists_loops hprocess (fun _ => trivial) hloops hless
  rw [← hreads.loops_eq] at hturns
  have hsecond := hturns 0 (replaceConditionals process text registry).2
  exact hsecond.turns_segments (extracts_rawMarkup settings _) atOpening_rawMarkup
    (fun _ => passes_rawMarkup_tokens) 0 _

/-- Repeated passes leave the runs and placeholders between them, if there are as many passes as
loops nest. -/
theorem Skeleton.staged_repeatPass (hsound : Sound process)
    (hprocess : AbsorbsLevels settings limit depth process) (count : Nat)
    (h : Planned limit loops parts text) (hloops : loops ≤ limit) (hcount : loops ≤ count)
    (hflat : count = 0 → Staged Insert.NotRaw 0 parts text) (hbraces : braces text ≤ depth + 1)
    (registry : Registry) :
    Staged Insert.NotRaw 0 parts (repeatPass (blockPass process) count text registry).1 := by
  induction count generalizing loops text registry with
  | zero => exact hflat rfl
  | succ count ih =>
    rw [repeatPass_blockPass_succ hsound]
    -- every pass leaves shorter chains of loops, so the last one leaves none
    have hpass := h.staged_blockPass hsound hprocess hloops hbraces registry
    refine ih (hpass.planned limit) (by omega) (by omega) (fun hzero => ?_) ?_ _
    · have hnone : loops - 1 = 0 := by omega
      rwa [hnone] at hpass
    · exact (isMeasure_braces.le_of_rewrites (sound_blockPass hsound text registry)).trans hbraces

/-- Processing a fragment leaves the runs of its outermost level and placeholders between them. -/
theorem Skeleton.staged_processFragment (hlimit : 1 ≤ limit) (h : Planned limit limit parts text)
    (registry : Registry) :
    Staged Insert.IsChar 0 parts (processFragment limit text registry).1 := by
  have hprocess : AbsorbsLevels {} limit (braces text) (processFragment limit) := by
    intro problems body hbody _ registry
    exact (hbody.trim.faults_processAt hlimit _ le_rfl registry).2
  have hblocks := h.staged_repeatPass (sound_processFragment limit) hprocess limit le_rfl le_rfl
    (fun hzero => by omega) (Nat.le_succ _) registry
  rw [processFragment_eq]
  exact hblocks.turns_segments (extracts_interpolation {}) atOpening_interpolation (absurd rfl) 0 _

end

end ComponentFile.Template
