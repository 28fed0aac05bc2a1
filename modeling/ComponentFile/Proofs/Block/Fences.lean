import ComponentFile.Proofs.Block.Elements

/-!
# Fences by lines

The backend of a file stands between two fences. Opening and closing fences look alike, and the line
behind an opening fence is content even if it is a fence. So the pairs of fences are those with a
line between them, and the first pair is described by line numbers alone: the first fence of all,
and the first one at least two lines behind it.
-/

namespace ComponentFile.Extraction

/-! ## Fences by their line numbers -/

/-- Three dashes, then spaces and tabs, and at most one carriage return. -/
def FenceLine (line : Text) : Prop :=
  ∃ blanks ending, line = ['-', '-', '-'] ++ blanks ++ ending ∧ (∀ c ∈ blanks, c = ' ' ∨ c = '\t') ∧
    (ending = [] ∨ ending = ['\r'])

/-- A space or a tab. -/
def isLineBlank (c : Char) : Bool := c == ' ' || c == '\t'

/-- Behind its dashes and blanks a fence ends, or has one carriage return. -/
theorem isFence_append_iff (rest : Text) :
    isFence (['-', '-', '-'] ++ rest) = true ↔
      rest.dropWhile isLineBlank = [] ∨ rest.dropWhile isLineBlank = ['\r'] := by
  have hblank : (rest.dropWhile fun c => c == ' ' || c == '\t') = rest.dropWhile isLineBlank := rfl
  rw [isFence, Text.after?_append]
  dsimp only
  rw [hblank]
  rcases rest.dropWhile isLineBlank with _ | ⟨c, _ | ⟨d, ending⟩⟩ <;> simp

/-- A fence is known by its spelling. -/
theorem isFence_iff {line : Text} : isFence line = true ↔ FenceLine line := by
  have hblank (c : Char) : isLineBlank c = true ↔ c = ' ' ∨ c = '\t' := by
    rw [isLineBlank, Bool.or_eq_true, beq_iff_eq, beq_iff_eq]
  constructor
  · intro h
    cases hrest : Text.after? ['-', '-', '-'] line with
    | none =>
      rw [isFence, hrest] at h
      cases h
    | some rest =>
      obtain rfl := Text.after?_eq_some_iff.mp hrest
      refine ⟨rest.takeWhile isLineBlank, rest.dropWhile isLineBlank, ?_, ?_,
        (isFence_append_iff rest).mp h⟩
      · rw [List.append_assoc, List.takeWhile_append_dropWhile]
      · exact fun c hc => (hblank c).mp (List.mem_takeWhile_imp hc)
  · rintro ⟨blanks, ending, rfl, hblanks, hending⟩
    have hall : ∀ c ∈ blanks, isLineBlank c = true := fun c hc => (hblank c).mpr (hblanks c hc)
    rw [List.append_assoc, isFence_append_iff, List.dropWhile_append_of_pos hall]
    rcases hending with rfl | rfl
    · exact .inl rfl
    · exact .inr rfl

/-- The line with the given number is a fence. -/
def FenceAt (lines : List Text) (position : Nat) : Prop := ∃ line ∈ lines[position]?, FenceLine line

theorem fenceAt_append_right {before lines : List Text} {position : Nat}
    (hle : before.length ≤ position) :
    FenceAt (before ++ lines) position ↔ FenceAt lines (position - before.length) := by
  rw [FenceAt, List.getElem?_append_right hle, FenceAt]

/-- Lines that are no fences push the first fence back. -/
theorem length_le_of_fenceAt {front rest : List Text}
    (hfront : ∀ line ∈ front, isFence line = false) {position : Nat}
    (h : FenceAt (front ++ rest) position) : front.length ≤ position := by
  by_contra hlt
  rw [Nat.not_le] at hlt
  obtain ⟨line, hline, hfence⟩ := h
  rw [Option.mem_def, List.getElem?_append_left hlt] at hline
  have hfree := hfront line (List.mem_of_getElem? hline)
  rw [isFence_iff.mpr hfence] at hfree
  cases hfree

private theorem isLeast_fenceAt {front : List Text} {fence : Text} (before rest : List Text)
    (hfront : ∀ line ∈ front, isFence line = false) (hfence : isFence fence = true) :
    IsLeast {position | before.length ≤ position ∧
      FenceAt (before ++ (front ++ fence :: rest)) position}
      (before.length + front.length) := by
  constructor
  · refine ⟨Nat.le_add_right _ _, ?_⟩
    rw [fenceAt_append_right (Nat.le_add_right _ _), Nat.add_sub_cancel_left,
      fenceAt_append_right (Nat.le_refl _), Nat.sub_self]
    exact ⟨fence, rfl, isFence_iff.mp hfence⟩
  · rintro position ⟨hle, hposition⟩
    rw [fenceAt_append_right hle] at hposition
    have hback := length_le_of_fenceAt hfront hposition
    omega

/-! ## Pairs of fences -/

theorem lineBytes_append (left right : List Text) :
    lineBytes (left ++ right) = lineBytes left + lineBytes right := by
  rw [lineBytes, List.map_append, List.sum_append_nat]
  rfl

theorem lineBytes_cons (line : Text) (lines : List Text) :
    lineBytes (line :: lines) = line.byteSize + 1 + lineBytes lines := by
  rw [lineBytes, List.map_cons, List.sum_cons]
  rfl

private theorem exists_first_fence (lines : List Text) :
    (∀ line ∈ lines, isFence line = false) ∨
      ∃ front fence rest, lines = front ++ fence :: rest ∧ (∀ line ∈ front, isFence line = false) ∧
        isFence fence = true := by
  induction lines with
  | nil => exact .inl nofun
  | cons line lines ih =>
    by_cases hline : isFence line = true
    · exact .inr ⟨[], line, lines, rfl, nofun, hline⟩
    · rw [Bool.not_eq_true] at hline
      rcases ih with hnone | ⟨front, fence, rest, rfl, hfront, hfence⟩
      · exact .inl (List.forall_mem_cons.mpr ⟨hline, hnone⟩)
      · exact .inr ⟨line :: front, fence, rest, rfl,
          List.forall_mem_cons.mpr ⟨hline, hfront⟩, hfence⟩

/-- No fence has another one behind it with a line between them. -/
def Unpaired (lines : List Text) : Prop :=
  ∀ first second, FenceAt lines first → first + 2 ≤ second → ¬FenceAt lines second

/-- A first fence without another one behind the next line is in no pair. -/
private theorem unpaired_of_first {front others : List Text}
    (hfront : ∀ line ∈ front, isFence line = false)
    (hothers : ∀ line ∈ others.drop 2, isFence line = false) : Unpaired (front ++ others) := by
  intro first second hfirst hle hsecond
  have hback := length_le_of_fenceAt hfront hfirst
  obtain ⟨line, hline, hfence⟩ := (fenceAt_append_right (by omega)).mp hsecond
  have hmem : line ∈ others.drop 2 := by
    apply List.mem_of_getElem? (i := second - front.length - 2)
    rw [List.getElem?_drop, ← hline]
    congr 1
    omega
  have hfree := hothers line hmem
  rw [isFence_iff.mpr hfence] at hfree
  cases hfree

/-- The first pair of fences with a line between them. -/
structure FirstPair (lines front : List Text) (opener next : Text) (body : List Text)
    (closer : Text) (rest : List Text) : Prop where
  lines_eq : lines = front ++ opener :: next :: (body ++ closer :: rest)
  front_free : ∀ line ∈ front, isFence line = false
  opener_isFence : isFence opener = true
  body_free : ∀ line ∈ body, isFence line = false
  closer_isFence : isFence closer = true

/-- Either no fences are paired and nothing is found, or the first pair is found and the search goes
on behind it. -/
theorem fencedFrom_cases (offset : Nat) (lines : List Text) :
    (Unpaired lines ∧ fencedFrom offset none lines = []) ∨
      ∃ front opener next body closer rest, FirstPair lines front opener next body closer rest ∧
        fencedFrom offset none lines =
          { content := dropReturn (Text.join ['\n'] (next :: body)),
            start := offset + lineBytes front
            stop := offset + lineBytes (front ++ opener :: next :: body) + closer.byteSize } ::
          fencedFrom (offset + lineBytes (front ++ opener :: next :: (body ++ [closer]))) none
            rest := by
  rcases exists_first_fence lines with hnone | ⟨front, opener, others, rfl, hfront, hopener⟩
  · have hfree := fencedFrom_none_append hnone offset []
    have hunpaired : Unpaired (lines ++ []) :=
      unpaired_of_first hnone fun _ hm => absurd hm List.not_mem_nil
    rw [List.append_nil] at hfree hunpaired
    exact .inl ⟨hunpaired, hfree⟩
  rw [fencedFrom_none_append hfront]
  simp only [fencedFrom, hopener, if_true]
  cases others with
  | nil => exact .inl ⟨unpaired_of_first hfront fun _ hm => absurd hm List.not_mem_nil, rfl⟩
  | cons next others =>
    simp only [fencedFrom, List.isEmpty_nil, Bool.not_true, Bool.and_false,
      Bool.false_eq_true, if_false]
    rcases exists_first_fence others with hnone | ⟨body, closer, rest, rfl, hbody, hcloser⟩
    · refine .inl ⟨unpaired_of_first hfront hnone, ?_⟩
      have hfree (start : Nat) (offset : Nat) := fencedFrom_some_append hnone offset start [next] []
      simp only [List.append_nil] at hfree
      rw [hfree]
      rfl
    · refine .inr ⟨front, opener, next, body, closer, rest,
        ⟨rfl, hfront, hopener, hbody, hcloser⟩, ?_⟩
      rw [fencedFrom_some_append hbody]
      have hempty : (body.reverse ++ [next]).isEmpty = false := by
        rw [List.isEmpty_eq_false_iff]
        exact List.append_ne_nil_of_right_ne_nil _ (List.cons_ne_nil _ _)
      simp only [fencedFrom, hcloser, hempty, Bool.not_false, Bool.and_self, if_true,
        List.reverse_append, List.reverse_reverse, List.reverse_singleton, List.singleton_append]
      congr 2 <;>
        simp only [lineBytes_append, lineBytes_cons, show lineBytes [] = 0 from rfl] <;> omega

/-- The first pair stands at the first fence and at the first fence behind the line after it. -/
theorem FirstPair.delimited {lines front body rest : List Text} {opener next closer : Text}
    (h : FirstPair lines front opener next body closer rest) (before : List Text) :
    Delimited (FenceAt (before ++ lines)) (FenceAt (before ++ lines)) 2 before.length
      (before.length + front.length) (before.length + front.length + 2 + body.length) := by
  constructor
  · rw [h.lines_eq]
    exact isLeast_fenceAt before _ h.front_free h.opener_isFence
  · have hleast := isLeast_fenceAt
      (before ++ front ++ [opener, next]) rest h.body_free h.closer_isFence
    have hlines : before ++ front ++ [opener, next] ++ (body ++ closer :: rest) =
        before ++ lines := by
      rw [h.lines_eq, List.append_assoc, List.append_assoc]
      rfl
    rwa [hlines, List.length_append, List.length_append] at hleast

/-- Where no fences are paired there is no first pair. -/
theorem Unpaired.not_delimited {lines : List Text} (h : Unpaired lines) (before : List Text)
    (first second : Nat) :
    ¬Delimited (FenceAt (before ++ lines)) (FenceAt (before ++ lines)) 2 before.length
      first second := by
  rintro ⟨⟨⟨hplace, hfirst⟩, -⟩, ⟨⟨hle, hsecond⟩, -⟩⟩
  rw [fenceAt_append_right hplace] at hfirst
  rw [fenceAt_append_right (by omega)] at hsecond
  exact h _ _ hfirst (by omega) hsecond

private theorem rounds_fencedFrom (offset : Nat) (before lines : List Text) :
    Rounds (FenceAt (before ++ lines)) (FenceAt (before ++ lines)) 2 1 before.length
      (fencedFrom offset none lines).length := by
  rcases fencedFrom_cases offset lines with
    ⟨hunpaired, hnothing⟩ | ⟨front, opener, next, body, closer, rest, hpair, hfound⟩
  · rw [hnothing]
    exact .done (hunpaired.not_delimited before)
  · rw [hfound]
    have hnext := rounds_fencedFrom
      (offset + lineBytes (front ++ opener :: next :: (body ++ [closer])))
      (before ++ (front ++ opener :: next :: (body ++ [closer]))) rest
    have hlines : before ++ (front ++ opener :: next :: (body ++ [closer])) ++ rest =
        before ++ lines := by
      rw [hpair.lines_eq]
      simp only [List.append_assoc, List.cons_append, List.nil_append]
    rw [hlines] at hnext
    refine .next (hpair.delimited before) ?_
    convert hnext using 1
    simp only [List.length_append, List.length_cons, List.length_nil]
    omega
termination_by lines.length
decreasing_by
  rw [hpair.lines_eq]
  simp only [List.length_append, List.length_cons]
  omega

/-- What the line numbers of its fences say about the backend of a file with the given lines. -/
structure DescribesFences (lines : List Text) (found : Option Block) : Prop where
  /-- There is a backend if two fences have a line between them. -/
  present : found.isSome = true ↔
    ∃ first second, FenceAt lines first ∧ first + 2 ≤ second ∧ FenceAt lines second
  /-- The first backend runs from the start of the first fence to the end of the first one behind
  the line after it. Its content are the lines between them, without a carriage return at their
  end. -/
  first : ∀ block ∈ found, ∃ first second closer,
    Delimited (FenceAt lines) (FenceAt lines) 2 0 first second ∧ lines[second]? = some closer ∧
    block.start = lineBytes (lines.take first) ∧
    block.stop = lineBytes (lines.take second) + closer.byteSize ∧
    block.content = dropReturn (Text.join ['\n'] ((lines.take second).drop (first + 1)))
  /-- The backends are counted by repeated searches, each from the line behind the last closing
  fence on. -/
  count : ∀ block ∈ found, Rounds (FenceAt lines) (FenceAt lines) 2 1 0 block.occurrences

/-- The fenced blocks of lines are what the line numbers say. -/
theorem describesFences_fencedFrom (lines : List Text) :
    DescribesFences lines (Block.ofOccurrences? (fencedFrom 0 none lines)) := by
  have hrounds : Rounds (FenceAt lines) (FenceAt lines) 2 1 0 (fencedFrom 0 none lines).length :=
    rounds_fencedFrom 0 [] lines
  rcases fencedFrom_cases 0 lines with
    ⟨hunpaired, hnothing⟩ | ⟨front, opener, next, body, closer, rest, hpair, hfound⟩
  · rw [hnothing]
    refine ⟨⟨nofun, ?_⟩, nofun, nofun⟩
    rintro ⟨first, second, hfirst, hle, hsecond⟩
    exact absurd hsecond (hunpaired first second hfirst hle)
  · have hdelimited := hpair.delimited []
    rw [List.nil_append, List.length_nil, Nat.zero_add] at hdelimited
    have hsecond : lines = (front ++ opener :: next :: body) ++ closer :: rest := by
      rw [hpair.lines_eq, List.append_assoc]
      rfl
    have hlength : (front ++ opener :: next :: body).length = front.length + 2 + body.length := by
      simp only [List.length_append, List.length_cons]
      omega
    rw [hfound] at hrounds ⊢
    refine ⟨iff_of_true rfl ?_, ?_, ?_⟩
    · exact ⟨_, _, hdelimited.opening.1.2, hdelimited.closing.1.1, hdelimited.closing.1.2⟩
    · intro block hblock
      obtain rfl := Option.some.inj hblock
      refine ⟨_, _, closer, hdelimited, ?_, ?_, ?_, ?_⟩
      · rw [hsecond, List.getElem?_append_right (Nat.le_of_eq hlength), hlength, Nat.sub_self]
        rfl
      · rw [hpair.lines_eq, List.take_left' rfl, Nat.zero_add]
      · dsimp only
        rw [hsecond, List.take_left' hlength, Nat.zero_add]
      · have hbody : (front ++ opener :: next :: body).drop (front.length + 1) = next :: body := by
          rw [List.append_cons]
          exact List.drop_left' List.length_append
        rw [hsecond, List.take_left' hlength, hbody]
    · intro block hblock
      obtain rfl := Option.some.inj hblock
      exact hrounds

end ComponentFile.Extraction
