import ComponentFile.Proofs.Draft.Level
import ComponentFile.Proofs.Outline.Conditional
import ComponentFile.Proofs.Outline.Loop
import ComponentFile.Proofs.Outline.Passes

/-!
# Where the problems of a level go

Taking a directive out of a level moves its problem, and those of its bodies, from the text to the
findings about the directives. A pass accounts for the problems of a level: those it leaves in the
text and those of the directives it adds are all there were.
-/

namespace ComponentFile.Template

open Validation

/-- The categories of the findings about directives. -/
def faults (settings : Settings) (registry : Registry) : Multiset DiagnosticKind :=
  ((registry.toList.flatMap (checkDirective settings)).map Finding.kind : List DiagnosticKind)

/-- The categories of the findings about one directive. -/
def kindFaults (settings : Settings) (directive : Directive) : Multiset DiagnosticKind :=
  ((checkDirective settings directive).map Finding.kind : List DiagnosticKind)

private theorem faults_push (settings : Settings) (registry : Registry) (directive : Directive) :
    faults settings (registry.push directive) =
      faults settings registry + kindFaults settings directive := by
  simp only [faults, kindFaults, Array.toList_push, List.flatMap_append, List.flatMap_cons,
    List.flatMap_nil, List.append_nil, List.map_append, Multiset.coe_add]

/-! ## Accounting for segments -/

section

variable {settings : Settings} {β : Type} {build : β → Registry → DirectiveKind × Registry}

/-- Replacing the segments leaves a text and problems as `goal` says, and the other problems go to
the directives. -/
def Accounts (settings : Settings) (build : β → Registry → DirectiveKind × Registry)
    (segments : List (Segment β)) (problems : Multiset DiagnosticKind)
    (goal : Multiset DiagnosticKind → Text → Prop) : Prop :=
  ∀ offset registry, ∃ kept, goal kept (Registry.replaceFrom build offset segments registry).1 ∧
    faults settings (Registry.replaceFrom build offset segments registry).2 + kept =
      faults settings registry + problems

/-- Problems can be kept in the text. -/
theorem Accounts.keep {segments : List (Segment β)} {problems : Multiset DiagnosticKind}
    {goal other : Multiset DiagnosticKind → Text → Prop}
    (h : Accounts settings build segments problems goal) (more : Multiset DiagnosticKind)
    (hgoal : ∀ kept text, goal kept text → other (more + kept) text) :
    Accounts settings build segments (more + problems) other := by
  intro offset registry
  obtain ⟨kept, htext, hfaults⟩ := h offset registry
  refine ⟨more + kept, hgoal kept _ htext, ?_⟩
  rw [add_left_comm, hfaults, add_left_comm]

/-- What is said of the text can be said otherwise. -/
theorem Accounts.imp {segments : List (Segment β)} {problems : Multiset DiagnosticKind}
    {goal other : Multiset DiagnosticKind → Text → Prop}
    (h : Accounts settings build segments problems goal)
    (hgoal : ∀ kept text, goal kept text → other kept text) :
    Accounts settings build segments problems other := by
  have hkeep : Accounts settings build segments (0 + problems) other :=
    h.keep 0 fun kept text hg => (zero_add kept).symm ▸ hgoal kept text hg
  rwa [zero_add] at hkeep

/-- Plain text has no problems and stays. -/
theorem accounts_plain (text : Text) :
    Accounts settings build (Segment.plain text) 0 fun kept rest => kept = 0 ∧ rest = text := by
  intro offset registry
  refine ⟨0, ⟨rfl, ?_⟩, ?_⟩ <;> rw [Registry.replaceFrom_plain]

/-- The problems of two lists of segments add up. -/
theorem Accounts.append {left right : List (Segment β)} {problems others : Multiset DiagnosticKind}
    {goal next : Multiset DiagnosticKind → Text → Prop}
    (h : Accounts settings build left problems goal)
    (hnext : Accounts settings build right others next) :
    Accounts settings build (left ++ right) (problems + others) fun kept text =>
      ∃ first front second back, goal first front ∧ next second back ∧ kept = first + second ∧
        text = front ++ back := by
  intro offset registry
  rw [Registry.replaceFrom_append]
  obtain ⟨first, hfirst, hfaults⟩ := h offset registry
  obtain ⟨second, hsecond, hmore⟩ := hnext (offset + (Segment.sources left).byteSize)
    (Registry.replaceFrom build offset left registry).2
  refine ⟨first + second, ⟨first, _, second, _, hfirst, hsecond, rfl, rfl⟩, ?_⟩
  dsimp only
  rw [add_left_comm, hmore, ← add_assoc, add_comm first, hfaults, add_assoc]

/-- Plain text in front stays there. -/
theorem Accounts.plain_append {segments : List (Segment β)} {problems : Multiset DiagnosticKind}
    {goal : Multiset DiagnosticKind → Text → Prop}
    (h : Accounts settings build segments problems goal) (text : Text) :
    Accounts settings build (Segment.plain text ++ segments) problems fun kept rest =>
        ∃ back, goal kept back ∧ rest = text ++ back := by
  have happend := (accounts_plain text).append h
  rw [zero_add] at happend
  refine happend.imp ?_
  rintro kept rest ⟨first, front, second, back, ⟨rfl, rfl⟩, hgoal, rfl, rfl⟩
  exact ⟨back, by rwa [zero_add], rfl⟩

/-- An item in front becomes a placeholder. -/
theorem Accounts.item {source : Text} {value : β} {own problems : Multiset DiagnosticKind}
    {segments : List (Segment β)} {goal : Multiset DiagnosticKind → Text → Prop}
    (hbuild : ∀ registry start, faults settings (build value registry).2 + kindFaults settings
      { index := (build value registry).2.size, kind := (build value registry).1, start := start,
        stop := start + source.byteSize, source } = faults settings registry + own)
    (h : Accounts settings build segments problems goal) :
    Accounts settings build (.item source value :: segments) (own + problems) fun kept text =>
      ∃ (directive : Directive) (back : Text), goal kept back ∧
        text = directive.placeholder.render ++ back := by
  intro offset registry
  let directive : Directive :=
    { index := (build value registry).2.size, kind := (build value registry).1, start := offset,
      stop := offset + source.byteSize, source }
  obtain ⟨kept, hkept, hfaults⟩ :=
    h (offset + source.byteSize) ((build value registry).2.push directive)
  refine ⟨kept, ⟨directive, _, hkept, rfl⟩, ?_⟩
  rw [faults_push, hbuild registry offset, add_assoc] at hfaults
  exact hfaults

/-! ## Accounting for levels -/

variable {keep : Insert → Prop} {loops : Nat} {problems : Multiset DiagnosticKind}
  {segments : List (Segment β)}

/-- Nothing is left of an empty level. -/
theorem accounts_nil (loops : Nat) : Accounts settings build [] 0 (Remnant keep loops) := by
  refine (accounts_plain []).imp ?_
  rintro kept text ⟨rfl, rfl⟩
  exact .nil loops

/-- An insert in front can stay. -/
theorem Accounts.insert (insert : Insert) (hwell : insert.WellFormed) (hkeep : keep insert)
    (h : Accounts settings build segments problems (Remnant keep loops)) :
    Accounts settings build (Segment.plain insert.text ++ segments) problems
      (Remnant keep loops) := by
  refine (h.plain_append _).imp ?_
  rintro kept rest ⟨back, hback, rfl⟩
  exact .insert insert hwell hkeep hback

/-- An item in front can be taken out. -/
theorem Accounts.mark (hkeep : ∀ c, keep (.char c)) (source : Text) {value : β}
    {own : Multiset DiagnosticKind}
    (hbuild : ∀ registry start, faults settings (build value registry).2 + kindFaults settings
      { index := (build value registry).2.size, kind := (build value registry).1, start := start,
        stop := start + source.byteSize, source } = faults settings registry + own)
    (h : Accounts settings build segments problems (Remnant keep loops)) :
    Accounts settings build (.item source value :: segments) (own + problems)
      (Remnant keep loops) := by
  refine (Accounts.item hbuild h).imp ?_
  rintro kept rest ⟨directive, back, hback, rfl⟩
  exact hback.mark hkeep directive

/-- The tokens of a loop in front can stay, with its problem, if the chains of loops in its body
allow it. -/
theorem Accounts.around (header : HeaderText) {inside : Multiset DiagnosticKind}
    {inner : List (Segment β)} (hbody : Accounts settings build inner inside (Remnant keep loops))
    (h : Accounts settings build segments problems (Remnant keep (loops + 1))) :
    Accounts settings build
      (Segment.plain header.eachToken ++ (inner ++ (Segment.plain eachClosing ++ segments)))
      (header.loopProblems + inside + problems) (Remnant keep (loops + 1)) := by
  rw [add_assoc]
  refine Accounts.keep ((hbody.append (h.plain_append eachClosing)).plain_append header.eachToken)
    header.loopProblems ?_
  rintro kept rest ⟨back, ⟨first, front, second, after, hfirst, ⟨last, hlast, rfl⟩, rfl, rfl⟩, rfl⟩
  rw [← add_assoc, ← List.append_assoc, ← List.append_assoc]
  exact .loop header hfirst hlast

end

end ComponentFile.Template
