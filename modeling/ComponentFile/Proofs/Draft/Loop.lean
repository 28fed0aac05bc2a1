import ComponentFile.Proofs.Draft.Conditional

/-!
# The loops of a level

Once no conditionals are left, one reading finds the innermost loops. Taking them out moves their
problems and those of their bodies to the directives, and leaves a level with shorter chains of
loops.
-/

namespace ComponentFile.Template

open Validation

/-! ## Tokens -/

/-- No insert holds the token that ends a loop. -/
theorem Insert.WellFormed.passes_eachClosing {insert : Insert} (h : insert.WellFormed) :
    Passes (Text.after? eachClosing) insert.text :=
  Insert.passes atOpening_eachClosing atSigil_eachClosing (fun _ => rfl) h

/-- No insert holds the keyword of loops. -/
theorem Insert.WellFormed.passes_eachKeyword {insert : Insert} (h : insert.WellFormed) :
    Passes (Text.after? eachKeyword) insert.text :=
  Insert.passes atOpening_eachKeyword atSigil_eachKeyword (fun _ => rfl) h

/-- The token of a loop is not the one that ends it. -/
theorem HeaderText.passes_eachClosing (header : HeaderText) :
    Passes (Text.after? eachClosing) header.eachToken :=
  header.passes atOpening_eachClosing fun _ => rfl

namespace Remnant

variable {keep : Insert → Prop} {loops : Nat} {problems : Multiset DiagnosticKind} {text : Text}

/-- Without loops there are no tokens of loops. -/
theorem passes (h : Remnant keep 0 problems text) :
    Passes (Text.after? eachClosing) text ∧ Passes (Text.after? eachKeyword) text := by
  generalize hloops : 0 = loops at h
  induction h with
  | nil => exact ⟨passes_nil _, passes_nil _⟩
  | insert insert hwell _ _ ih =>
    obtain ⟨hclosing, hkeyword⟩ := ih hloops
    exact ⟨hwell.passes_eachClosing.append hclosing, hwell.passes_eachKeyword.append hkeyword⟩
  | loop => cases hloops

/-- A level without conditionals has a loop, or its chains of loops have no length. -/
theorem flat_or_not_passes (h : Remnant keep loops problems text) :
    Remnant keep 0 problems text ∨ ¬ Passes (Text.after? eachKeyword) text := by
  induction h with
  | nil => exact .inl (.nil 0)
  | insert insert hwell hkeep _ ih =>
    rcases ih with hflat | hloop
    · exact .inl (.insert insert hwell hkeep hflat)
    · refine .inr fun hpasses => hloop fun tail rest hne htail => ?_
      exact hpasses tail rest hne (htail.trans (List.suffix_append _ _))
  | @loop loops inside outside body text header _ _ =>
    refine .inr fun hpasses => ?_
    have hne : header.eachToken ++ body ++ eachClosing ++ text ≠ [] := List.cons_ne_nil _ _
    have hnone := hpasses _ [] hne (List.suffix_refl _)
    have hfound : Text.after? eachKeyword (header.eachToken ++ body ++ eachClosing ++ text ++ []) =
        some (header.text ++ closing ++ body ++ eachClosing ++ text ++ []) := by
      simp only [HeaderText.eachToken, List.append_assoc, Text.after?_append]
    rw [hfound] at hnone
    cases hnone

end Remnant

/-! ## Taking loops out -/

section

variable {settings : Settings} {process : Pass}

private theorem kindFaults_loop (header : HeaderText) (body processedBody : Text)
    {directive : Directive}
    (hkind : directive.kind = .loop (LoopHeader.parse header.text).iterable (LoopHeader.parse
      header.text).item (LoopHeader.parse header.text).indexName body processedBody) :
    kindFaults settings directive = header.loopProblems := by
  rw [kindFaults, checkDirective, hkind, HeaderText.loopProblems]
  dsimp only
  split <;> rfl

/-- Building a loop moves its problem and those in its body to the directives. -/
private theorem faults_loopKind (header : HeaderText) {body : Text}
    {inside : Multiset DiagnosticKind} (hbody : Absorbs settings process inside body)
    (registry : Registry) {directive : Directive}
    (hkind : directive.kind = (loopKind process { header := header.text, body } registry).1) :
    faults settings (loopKind process { header := header.text, body } registry).2 +
        kindFaults settings directive =
      faults settings registry + (header.loopProblems + inside) := by
  have hfaults : faults settings (loopKind process { header := header.text, body } registry).2 =
      faults settings registry + inside := hbody registry
  rw [hfaults, kindFaults_loop header _ _ hkind, add_assoc, add_comm inside]

/-- After text without closing tokens, the text of a level is read into the segments. The text
before it may hold tokens that start loops around the level, as long as a loop in the level ends
first. -/
def ReadsInto (text : Text) (segments : List (Segment Loop)) : Prop :=
  ∀ {before rest : Text} {others : List (Segment Loop)}, ReadsAs rest others →
    Passes (Text.after? eachClosing) before →
    Passes (Text.after? eachKeyword) before ∨ ¬ Passes (Text.after? eachKeyword) text →
    loops (before ++ text ++ rest) = Segment.plain before ++ segments ++ others

/-- An empty text is read into nothing. -/
theorem readsInto_nil : ReadsInto [] [] := by
  intro before rest others hrest hclosing hkeyword
  rcases hkeyword with hkeyword | hloop
  · simpa only [List.append_nil] using hrest _ hclosing hkeyword
  · exact absurd (passes_nil _) hloop

/-- Text without tokens of loops is plain. -/
theorem ReadsInto.plain {front text : Text} {segments : List (Segment Loop)}
    (hclosing : Passes (Text.after? eachClosing) front)
    (hkeyword : Passes (Text.after? eachKeyword) front) (h : ReadsInto text segments) :
    ReadsInto (front ++ text) (Segment.plain front ++ segments) := by
  intro before rest others hrest hbefore hstart
  have hnext := h hrest (hbefore.append hclosing)
    (hstart.imp (fun h => h.append hkeyword) fun h hpasses => h (hkeyword.append hpasses))
  simpa only [Segment.plain, List.map_append, List.append_assoc] using hnext

/-- A loop without loops in it is an item. -/
theorem ReadsInto.loop (header : HeaderText) {body text : Text} {segments : List (Segment Loop)}
    (hclosing : Passes (Text.after? eachClosing) body)
    (hkeyword : Passes (Text.after? eachKeyword) body) (h : ReadsInto text segments) :
    ReadsInto (header.eachToken ++ body ++ eachClosing ++ text)
      (.item (header.eachToken ++ body ++ eachClosing) { header := header.text, body } ::
        segments) := by
  intro before rest others hrest hbefore _
  have hafter : loops (text ++ rest) = segments ++ others :=
    h hrest (passes_nil _) (Or.inl (passes_nil _))
  have hcut := loops_append ((hbefore.append header.passes_eachClosing).append hclosing)
    (text ++ rest)
  have hitem := closedLoop_eachKeyword header.braceFree header.isSpace_head hkeyword before
  rw [show closedLoop (before ++ header.eachToken ++ body) = _ from hitem, hafter] at hcut
  simpa only [HeaderText.eachToken, List.append_assoc, List.cons_append, List.nil_append] using hcut

/-- A loop around other loops stays. -/
theorem ReadsInto.around (header : HeaderText) {body text : Text}
    {inner segments : List (Segment Loop)} (hbody : ReadsInto body inner)
    (hloop : ¬ Passes (Text.after? eachKeyword) body) (h : ReadsInto text segments) :
    ReadsInto (header.eachToken ++ body ++ eachClosing ++ text)
      (Segment.plain header.eachToken ++ (inner ++ (Segment.plain eachClosing ++ segments))) := by
  intro before rest others hrest hbefore _
  have hafter : loops (text ++ rest) = segments ++ others :=
    h hrest (passes_nil _) (Or.inl (passes_nil _))
  have hend : ReadsAs (eachClosing ++ (text ++ rest))
      (Segment.plain eachClosing ++ (segments ++ others)) := by
    intro front hfrontClosing hfrontKeyword
    rw [← List.append_assoc, loops_append hfrontClosing, closedLoop_of_passes hfrontKeyword, hafter]
    simp only [Segment.plain, List.map_append, List.append_assoc]
  have hall := hbody hend (hbefore.append header.passes_eachClosing) (Or.inr hloop)
  simpa only [Segment.plain, List.map_append, List.append_assoc] using hall

/-- A text that is read into segments has them as its loops. -/
theorem ReadsInto.loops_eq {text : Text} {segments : List (Segment Loop)}
    (h : ReadsInto text segments) :
    loops text = segments := by
  have hend : ReadsAs [] [] := by
    intro before hclosing _
    rw [List.append_nil, List.append_nil, loops_of_passes hclosing]
  have hall := h hend (passes_nil _) (Or.inl (passes_nil _))
  simpa only [Segment.plain, List.map_nil, List.nil_append, List.append_nil] using hall

/-- The innermost loops of a level can be taken out. Chains of loops get shorter. -/
theorem Remnant.exists_loops {limit depth loops : Nat} {keep : Insert → Prop}
    {problems : Multiset DiagnosticKind} {text : Text}
    (hprocess : AbsorbsLevels settings limit depth process)
    (hkeep : ∀ c, keep (.char c)) (h : Remnant keep loops problems text) (hloops : loops ≤ limit)
    (hbraces : braces text ≤ depth + 1) :
    ∃ segments, ReadsInto text segments ∧
      Accounts settings (loopKind process) segments problems (Remnant keep (loops - 1)) := by
  induction h with
  | nil loops => exact ⟨[], readsInto_nil, accounts_nil _⟩
  | insert insert hwell hinsert _ ih =>
    rw [braces_append] at hbraces
    obtain ⟨segments, hreads, haccounts⟩ := ih hloops (by omega)
    exact ⟨_, hreads.plain hwell.passes_eachClosing hwell.passes_eachKeyword,
      haccounts.insert insert hwell hinsert⟩
  | @loop loops inside outside body text header hbody _ ihbody ihnext =>
    have htoken : 0 < braces header.eachToken := braces_pos rfl
    simp only [braces_append] at hbraces
    obtain ⟨segments, hreads, haccounts⟩ := ihnext hloops (by omega)
    rcases hbody.flat_or_not_passes with hflat | hloop
    · have hlevel : Level limit limit inside body := (hbody.level limit).mono (by omega)
      have hbuild := faults_loopKind header (hprocess hlevel (by omega))
      exact ⟨_, hreads.loop header hflat.passes.1 hflat.passes.2,
        haccounts.mark hkeep _ fun registry start => hbuild registry rfl⟩
    · obtain ⟨inner, hinner, haccountsInner⟩ := ihbody (by omega) (by omega)
      -- a loop in the body leaves a shorter chain there, so the loop around it may stay
      obtain ⟨fewer, rfl⟩ : ∃ fewer, loops = fewer + 1 := by
        cases loops with
        | zero => exact absurd hbody.passes.2 hloop
        | succ fewer => exact ⟨fewer, rfl⟩
      exact ⟨_, hinner.around header hloop hreads, haccountsInner.around header haccounts⟩

/-- Taking out the innermost loops of a level leaves shorter chains of loops. -/
theorem Remnant.accounts_loops {limit depth loops : Nat} {keep : Insert → Prop}
    {problems : Multiset DiagnosticKind} {text : Text}
    (hprocess : AbsorbsLevels settings limit depth process)
    (hkeep : ∀ c, keep (.char c)) (h : Remnant keep loops problems text) (hloops : loops ≤ limit)
    (hbraces : braces text ≤ depth + 1) :
    Accounts settings (loopKind process) (Template.loops text) problems
      (Remnant keep (loops - 1)) := by
  obtain ⟨segments, hreads, haccounts⟩ := h.exists_loops hprocess hkeep hloops hbraces
  rwa [hreads.loops_eq]

end

end ComponentFile.Template
