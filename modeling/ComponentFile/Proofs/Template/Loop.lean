import ComponentFile.Proofs.Template.Replacement
import ComponentFile.Template.Loop

/-!
# The sources of loops

The reading of loops cuts a text at its closing tokens and puts it together again, so it loses no
text. The source of a loop is its header token, its body and the closing token.
-/

namespace ComponentFile.Template

/-- The source of a loop: tokens around its body. -/
def Loop.source (loop : Loop) : Text :=
  eachKeyword ++ loop.header ++ closing ++ loop.body ++ eachClosing

/-- The text up to a closing token is either plain or ends with a loop. -/
theorem closedLoop_cases (text : Text) :
    closedLoop text = Segment.plain (text ++ eachClosing) ∨
      ∃ before loop, text ++ eachClosing = before ++ loop.source ∧
        closedLoop text = Segment.plain before ++ [.item loop.source loop] := by
  unfold closedLoop
  dsimp only
  split
  · next before header body hloop =>
    simp only [Option.bind_eq_bind, Option.bind_eq_some_iff, Prod.exists, Option.pure_def,
      Option.some.injEq, Prod.mk.injEq] at hloop
    obtain ⟨front, rest, hcut, inner, after, hheader, rfl, rfl, rfl⟩ := hloop
    refine Or.inr ⟨front, ⟨inner, after⟩, ?_, rfl⟩
    have hrest := eq_of_header?_eq_some hheader
    rw [Text.eq_of_cutLast?_eq_some hcut, List.append_assoc front, hrest, Loop.source]
    simp only [List.append_assoc]
  · exact Or.inl rfl

/-- The reading of a text up to a closing token keeps all characters. -/
private theorem sources_closedLoop (text : Text) :
    Segment.sources (closedLoop text) = text ++ eachClosing := by
  rcases closedLoop_cases text with h | ⟨before, loop, htext, h⟩
  · rw [h, Segment.sources_plain]
  · rw [h, htext, Segment.sources_append, Segment.sources_plain, Segment.sources_cons,
      Segment.sources_nil, List.append_nil]
    rfl

/-- The reading of pieces puts the closing tokens back between them. -/
private theorem sources_loopsOf (pieces : List Text) :
    Segment.sources (loopsOf pieces) = Text.join eachClosing pieces := by
  fun_induction loopsOf pieces with
  | case1 => rfl
  | case2 last => rw [Segment.sources_plain, Text.join]
  | case3 text rest hrest ih =>
    rw [Segment.sources_append, sources_closedLoop, ih]
    cases rest with
    | nil => exact absurd rfl hrest
    | cons other rest => rfl

/-- The segments of the loops of a text make up the text. -/
theorem sources_loops (text : Text) : Segment.sources (loops text) = text := by
  rw [loops, sources_loopsOf, Text.join_pieces (by decide)]

/-- Every item of the reading has the source of its loop. -/
theorem source_of_mem_loopsOf {pieces : List Text} {source : Text} {loop : Loop}
    (h : .item source loop ∈ loopsOf pieces) : source = loop.source := by
  fun_induction loopsOf pieces with
  | case1 => cases h
  | case2 last => simp [Segment.plain] at h
  | case3 text rest _ ih =>
    rcases List.mem_append.mp h with h | h
    · rcases closedLoop_cases text with hc | ⟨before, found, _, hc⟩
      · simp [hc, Segment.plain] at h
      · simp only [hc, Segment.plain, List.mem_append, List.mem_map, reduceCtorEq, and_false,
          exists_false, List.mem_singleton, Segment.item.injEq, false_or] at h
        obtain ⟨rfl, rfl⟩ := h
        rfl
    · exact ih h

/-- A loop can be replaced when its body can be processed. -/
theorem replaceable_loopKind {process : Pass} (hprocess : Sound process) (loop : Loop) :
    Replaceable (loopKind process) loop.source loop := by
  intro registry
  refine ⟨?_, hprocess loop.body.trim registry⟩
  change IsSource ('{' :: (['{', '@', 'e', 'a', 'c', 'h'] ++ loop.header ++ closing ++ loop.body ++
    eachClosing)) [loop.body.trim]
  refine isSource_of_braces ?_ ?_
  · have hbody := (Text.Holds.self loop.body).map_trim
    exact ((hbody.append_left _).append_right eachClosing).supplies
  · rw [List.getLast?_append]
    rfl

/-- Taking out loops is sound when processing their bodies is. -/
theorem sound_replaceLoops {process : Pass} (hprocess : Sound process) :
    Sound (replaceLoops process) := by
  refine sound_replace sources_loops fun text source loop hm => ?_
  rw [source_of_mem_loopsOf hm]
  exact replaceable_loopKind hprocess loop

end ComponentFile.Template
