import ComponentFile.Proofs.Block.Fences

/-!
# The pattern of a fenced block

The backend of a file is described by a pattern over characters: a fence at the start of a line, any
text, and the next fence that fills a line. A fence is read in the same way whether it opens or
closes, so one equation about fences serves both ends. The content is followed line by line: it
passes over each line whose next line is no fence, and stops before the line feed in front of the
first fence, or before the carriage return there. In the end the pattern finds exactly the pairs of
fence lines with a line between them.
-/

namespace ComponentFile.Extraction

open Pattern Item

/-- A fence, and the parts that follow it. -/
def fenceItems (items : List Item) : List Item :=
  literal ['-', '-', '-'] ++ .many isLineBlank :: .optional (· == '\r') :: items

/-- The pattern of a fenced block. -/
def fencePattern : Pattern where
  opening := .lineStart :: fenceItems [.one (· == '\n')]
  content := [.few fun _ => true]
  closing := .optional (· == '\r') :: .one (· == '\n') :: fenceItems [.lineEnd]

/-! ## Lines of a text -/

/-- The lines behind a line, each with the line feed in front of it. -/
def behind (lines : List Text) : Text := lines.flatMap ('\n' :: ·)

theorem behind_cons (line : Text) (lines : List Text) :
    behind (line :: lines) = '\n' :: (line ++ behind lines) := rfl

theorem join_cons (line : Text) (lines : List Text) :
    Text.join ['\n'] (line :: lines) = line ++ behind lines := by
  induction lines generalizing line with
  | nil => exact (List.append_nil line).symm
  | cons next lines ih =>
    have hjoin : Text.join ['\n'] (line :: next :: lines) =
        line ++ ['\n'] ++ Text.join ['\n'] (next :: lines) := rfl
    rw [hjoin, ih, List.append_assoc, List.singleton_append, behind_cons]

theorem behind_cons_eq_join (line : Text) (lines : List Text) :
    behind (line :: lines) = '\n' :: Text.join ['\n'] (line :: lines) := by
  rw [join_cons, behind_cons]

/-- Nothing follows, or a line feed. -/
def AtLineEnd (after : Text) : Prop := ∀ c ∈ after.head?, c = '\n'

theorem atLineEnd_behind (lines : List Text) : AtLineEnd (behind lines) := by
  cases lines with
  | nil => exact nofun
  | cons line lines => exact fun c hc => (Option.some.inj hc).symm

private theorem after?_append_of_atLineEnd {mark : Text} (hmark : '\n' ∉ mark) (line : Text)
    {tail : Text} (htail : AtLineEnd tail) :
    Text.after? mark (line ++ tail) = (Text.after? mark line).map (· ++ tail) := by
  induction mark generalizing line with
  | nil => rfl
  | cons m mark ih =>
    have hm : m ≠ '\n' := fun he => hmark (he ▸ List.mem_cons_self)
    cases line with
    | nil =>
      cases tail with
      | nil => rfl
      | cons c tail =>
        have hne : m ≠ c := htail c rfl ▸ hm
        exact if_neg hne
    | cons c line =>
      rw [List.cons_append, Text.after?, Text.after?]
      split
      · exact ih (List.not_mem_of_not_mem_cons hmark) line
      · rfl

private theorem isLineBlank_head_dropWhile (line : Text) {tail : Text} (htail : AtLineEnd tail) :
    ∀ c ∈ (line.dropWhile isLineBlank ++ tail).head?, isLineBlank c = false := by
  intro c hc
  rw [List.head?_append] at hc
  cases hdrop : (line.dropWhile isLineBlank).head? with
  | none =>
    rw [hdrop] at hc
    rw [htail c hc]
    rfl
  | some d =>
    rw [hdrop] at hc
    obtain rfl := Option.some.inj hc
    have hhead := List.head?_dropWhile_not isLineBlank line
    rw [hdrop] at hhead
    exact hhead

/-! ## Fences -/

section

variable {items : List Item} (hitems : ∀ before c after, c ≠ '\n' →
  allEnds items ⟨before, c :: after⟩ = [])

include hitems

/-- Parts that only go on at the end of a line may have one carriage return before it. -/
private theorem allEnds_return {ending tail : Text} (hending : '\n' ∉ ending)
    (htail : AtLineEnd tail) (before : Text) :
    allEnds (.optional (· == '\r') :: items) ⟨before, ending ++ tail⟩ =
      if ending = [] ∨ ending = ['\r'] then allEnds items ⟨ending.reverse ++ before, tail⟩
      else [] := by
  cases ending with
  | nil =>
    rw [if_pos (.inl rfl)]
    cases tail with
    | nil => exact allEnds_optional_nil before
    | cons c tail =>
      have hc : (c == '\r') = false := htail c rfl ▸ rfl
      rw [List.nil_append, allEnds_optional_cons, hc]
      rfl
  | cons c ending =>
    rw [List.mem_cons, not_or] at hending
    rw [List.cons_append, allEnds_optional_cons, hitems before c _ (Ne.symm hending.1),
      List.append_nil]
    by_cases hc : c = '\r'
    · subst hc
      rw [beq_self_eq_true, if_pos rfl]
      cases ending with
      | nil =>
        rw [if_pos (.inr rfl)]
        rfl
      | cons d ending =>
        rw [if_neg (by simp)]
        exact hitems _ d _ fun hd => hending.2 (hd ▸ List.mem_cons_self)
    · rw [beq_eq_false_iff_ne.mpr hc, if_neg Bool.false_ne_true, if_neg (by simp [hc])]

/-- Parts that only go on at the end of a line find it behind a fence, and nowhere else. -/
theorem allEnds_fenceItems {line tail : Text} (hline : '\n' ∉ line) (htail : AtLineEnd tail)
    (before : Text) :
    allEnds (fenceItems items) ⟨before, line ++ tail⟩ =
      if isFence line then allEnds items ⟨line.reverse ++ before, tail⟩ else [] := by
  have hmark : '\n' ∉ (['-', '-', '-'] : Text) := by decide
  rw [fenceItems, allEnds_literal_append, after?_append_of_atLineEnd hmark line htail]
  cases hrest : Text.after? ['-', '-', '-'] line with
  | none =>
    rw [isFence, hrest]
    rfl
  | some rest =>
    obtain rfl := Text.after?_eq_some_iff.mp hrest
    rw [List.mem_append, not_or] at hline
    -- the blanks end within the line or with it
    have hblank (before : Text) (c : Char) (after : Text) (hc : isLineBlank c = true) :
        allEnds (.optional (· == '\r') :: items) ⟨before, c :: after⟩ = [] := by
      have hne : c ≠ '\r' ∧ c ≠ '\n' := by
        constructor <;> rintro rfl <;> cases hc
      rw [allEnds_optional_cons, hitems before c after hne.2, beq_eq_false_iff_ne.mpr hne.1]
      rfl
    have hall : ∀ c ∈ rest.takeWhile isLineBlank, isLineBlank c = true :=
      fun c => List.mem_takeWhile_imp
    have hstop := isLineBlank_head_dropWhile rest htail
    have hrun :
        rest ++ tail = rest.takeWhile isLineBlank ++ (rest.dropWhile isLineBlank ++ tail) := by
      rw [← List.append_assoc, List.takeWhile_append_dropWhile]
    have hending : '\n' ∉ rest.dropWhile isLineBlank :=
      fun hmem => hline.2 ((List.dropWhile_suffix isLineBlank).subset hmem)
    rw [Option.map_some, Option.map_some, Option.getD_some, allEnds_many hblank, hrun,
      List.takeWhile_append_of_pos hall, List.dropWhile_append_of_pos hall,
      Text.takeWhile_of_head hstop, Text.dropWhile_of_head hstop, List.append_nil,
      allEnds_return hitems hending htail]
    simp only [isFence_append_iff]
    congr 2
    rw [← List.append_assoc, ← List.append_assoc, ← List.reverse_append, ← List.reverse_append,
      List.takeWhile_append_dropWhile]

end

/-! ## The end of the content -/

/-- A line feed and a fence close a block. -/
theorem allEnds_feed {line tail : Text} (hline : '\n' ∉ line) (htail : AtLineEnd tail)
    (before : Text) :
    allEnds (.one (· == '\n') :: fenceItems [.lineEnd]) ⟨before, '\n' :: (line ++ tail)⟩ =
      if isFence line then [⟨line.reverse ++ '\n' :: before, tail⟩] else [] := by
  have hends (before : Text) (c : Char) (after : Text) (hc : c ≠ '\n') :
      allEnds [.lineEnd] ⟨before, c :: after⟩ = [] := by
    rw [allEnds_singleton, ends, List.head?_cons, Option.all_some, beq_eq_false_iff_ne.mpr hc]
    rfl
  have hend : allEnds [.lineEnd] ⟨line.reverse ++ '\n' :: before, tail⟩ =
      [⟨line.reverse ++ '\n' :: before, tail⟩] := by
    rw [allEnds_singleton, ends, if_pos]
    cases tail with
    | nil => rfl
    | cons c tail => exact beq_iff_eq.mpr (htail c rfl)
  have hfeed : allEnds (.one (· == '\n') :: fenceItems [.lineEnd])
        ⟨before, '\n' :: (line ++ tail)⟩ =
      allEnds (fenceItems [.lineEnd]) ⟨'\n' :: before, line ++ tail⟩ := List.flatMap_singleton _ _
  rw [hfeed, allEnds_fenceItems hends hline htail, hend]

/-- A block closes at the end of a line only. -/
theorem allEnds_feed_of_ne {c : Char} (hc : c ≠ '\n') (before after : Text) :
    allEnds (.one (· == '\n') :: fenceItems [.lineEnd]) ⟨before, c :: after⟩ = [] := by
  rw [allEnds, ends, beq_eq_false_iff_ne.mpr hc]
  rfl

/-- The content passes over the characters of a line, up to a carriage return at its end. -/
theorem contentEnd?_inside {c : Char} {line : Text} (hline : '\n' ∉ c :: line)
    (h : c ≠ '\r' ∨ line ≠ []) (before after : Text) :
    fencePattern.contentEnd? before (c :: (line ++ after)) =
      fencePattern.contentEnd? (c :: before) (line ++ after) := by
  apply contentEnd?_cons
  rw [List.mem_cons, not_or] at hline
  rw [fencePattern, allEnds_optional_cons, allEnds_feed_of_ne (Ne.symm hline.1), List.append_nil]
  by_cases hc : c = '\r'
  · obtain ⟨d, rest, rfl⟩ := List.exists_cons_of_ne_nil (h.resolve_left (not_not_intro hc))
    have hd : d ≠ '\n' := fun he => hline.2 (he ▸ List.mem_cons_self)
    rw [List.cons_append, allEnds_feed_of_ne hd, ite_self]
    rfl
  · rw [beq_eq_false_iff_ne.mpr hc]
    rfl

/-- The content passes over a line whose next line is no fence. -/
theorem contentEnd?_line {line next tail : Text} (hline : '\n' ∉ line) (hnext : '\n' ∉ next)
    (htail : AtLineEnd tail) (hfence : isFence next = false) (before : Text) :
    fencePattern.contentEnd? before (line ++ '\n' :: (next ++ tail)) =
      fencePattern.contentEnd? ('\n' :: (line.reverse ++ before)) (next ++ tail) := by
  induction line generalizing before with
  | nil =>
    apply contentEnd?_cons
    rw [fencePattern, allEnds_optional_cons, allEnds_feed hnext htail, hfence]
    rfl
  | cons c line ih =>
    have hstep : fencePattern.contentEnd? before (c :: (line ++ '\n' :: (next ++ tail))) =
        fencePattern.contentEnd? (c :: before) (line ++ '\n' :: (next ++ tail)) := by
      by_cases h : c ≠ '\r' ∨ line ≠ []
      · exact contentEnd?_inside hline h before _
      · rw [not_or, not_not, not_not] at h
        obtain ⟨rfl, rfl⟩ := h
        apply contentEnd?_cons
        rw [fencePattern, allEnds_optional_cons, List.nil_append, allEnds_feed hnext htail, hfence]
        rfl
    rw [List.cons_append, hstep, ih (List.not_mem_of_not_mem_cons hline), List.reverse_cons,
      List.append_assoc, List.singleton_append]

private theorem contentEnd?_last {line : Text} (hline : '\n' ∉ line) (before : Text) :
    fencePattern.contentEnd? before line = none := by
  induction line generalizing before with
  | nil => rfl
  | cons c line ih =>
    rw [List.mem_cons, not_or] at hline
    rw [contentEnd?_cons, ih hline.2]
    rw [fencePattern, allEnds_optional_cons, allEnds_feed_of_ne (Ne.symm hline.1), List.append_nil]
    cases line with
    | nil => split <;> rfl
    | cons d line =>
      have hd : d ≠ '\n' := fun he => hline.2 (he ▸ List.mem_cons_self)
      rw [allEnds_feed_of_ne hd, ite_self]
      rfl

theorem dropReturn_cons {c : Char} {text : Text} (h : c ≠ '\r' ∨ text ≠ []) :
    dropReturn (c :: text) = c :: dropReturn text := by
  cases text with
  | nil =>
    have hc : c ≠ '\r' := h.resolve_right (not_not_intro rfl)
    rw [dropReturn, List.getLast?_singleton, if_neg (fun he => hc (Option.some.inj he))]
    rfl
  | cons d text =>
    rw [dropReturn, dropReturn, List.getLast?_cons_cons,
      List.dropLast_cons_of_ne_nil (List.cons_ne_nil _ _)]
    split <;> rfl

/-- Only the end of a text matters for the carriage return there. -/
private theorem dropReturn_append (line text : Text) :
    dropReturn (line ++ '\n' :: text) = line ++ '\n' :: dropReturn text := by
  induction line with
  | nil => exact dropReturn_cons (.inl (by decide))
  | cons c line ih =>
    rw [List.cons_append, dropReturn_cons (.inr (by simp)), ih]
    rfl

/-- The content stops at the end of a line whose next line is a fence. -/
private theorem contentEnd?_fence {line fence tail : Text} (hline : '\n' ∉ line)
    (hnext : '\n' ∉ fence) (htail : AtLineEnd tail) (hfence : isFence fence = true)
    (before : Text) :
    ∃ contentStop, fencePattern.contentEnd? before (line ++ '\n' :: (fence ++ tail)) =
        some (contentStop, ⟨fence.reverse ++ '\n' :: (line.reverse ++ before), tail⟩) ∧
      contentStop.before = (dropReturn line).reverse ++ before := by
  induction line generalizing before with
  | nil =>
    refine ⟨_, contentEnd?_of_closing ?_, rfl⟩
    rw [fencePattern, List.nil_append, allEnds_optional_cons, allEnds_feed hnext htail, hfence]
    rfl
  | cons c line ih =>
    by_cases h : c ≠ '\r' ∨ line ≠ []
    · obtain ⟨contentStop, hend, hstop⟩ := ih (List.not_mem_of_not_mem_cons hline) (c :: before)
      refine ⟨contentStop, ?_, ?_⟩
      · rw [List.cons_append, contentEnd?_inside hline h, hend, List.reverse_cons,
          List.append_assoc, List.singleton_append]
      · rw [hstop, dropReturn_cons h, List.reverse_cons, List.append_assoc, List.singleton_append]
    · rw [not_or, not_not, not_not] at h
      obtain ⟨rfl, rfl⟩ := h
      refine ⟨_, contentEnd?_of_closing ?_, rfl⟩
      rw [fencePattern, List.cons_append, allEnds_optional_cons, List.nil_append,
        allEnds_feed hnext htail, hfence]
      rfl

/-- The content runs over lines up to the first fence behind its first line. -/
private theorem contentEnd?_body {next closer : Text} {body rest : List Text}
    (hlines : ∀ line ∈ next :: (body ++ closer :: rest), '\n' ∉ line)
    (hbody : ∀ line ∈ body, isFence line = false) (hfence : isFence closer = true) (before : Text) :
    ∃ contentStop, fencePattern.contentEnd? before (next ++ behind (body ++ closer :: rest)) =
        some (contentStop, ⟨(next ++ behind (body ++ [closer])).reverse ++ before, behind rest⟩) ∧
      contentStop.before = (dropReturn (Text.join ['\n'] (next :: body))).reverse ++ before := by
  induction body generalizing next before with
  | nil =>
    obtain ⟨hnext, hcloser, -⟩ : '\n' ∉ next ∧ '\n' ∉ closer ∧ _ := by
      simpa only [List.nil_append, List.forall_mem_cons] using hlines
    obtain ⟨contentStop, hend, hstop⟩ :=
      contentEnd?_fence hnext hcloser (atLineEnd_behind rest) hfence before
    refine ⟨contentStop, ?_, hstop⟩
    have hbehind : behind [closer] = '\n' :: closer := List.append_nil _
    rw [List.nil_append, List.nil_append, behind_cons, hend, hbehind, List.reverse_append,
      List.reverse_cons, List.append_assoc, List.append_assoc, List.singleton_append]
  | cons line body ih =>
    rw [List.forall_mem_cons] at hlines hbody
    obtain ⟨contentStop, hend, hstop⟩ := ih hlines.2 hbody.2 ('\n' :: (next.reverse ++ before))
    refine ⟨contentStop, ?_, ?_⟩
    · have hline := hlines.2 line List.mem_cons_self
      rw [List.cons_append, behind_cons,
        contentEnd?_line hlines.1 hline (atLineEnd_behind _) hbody.1, hend, List.cons_append,
        behind_cons]
      simp only [List.reverse_append, List.reverse_cons, List.append_assoc, List.cons_append,
        List.nil_append]
    · rw [hstop, join_cons next, behind_cons_eq_join, dropReturn_append, List.reverse_append,
        List.reverse_cons, List.append_assoc, List.append_assoc, List.singleton_append]

private theorem contentEnd?_eq_none_of_free {next : Text} {rest : List Text}
    (hlines : ∀ line ∈ next :: rest, '\n' ∉ line) (hrest : ∀ line ∈ rest, isFence line = false)
    (before : Text) :
    fencePattern.contentEnd? before (next ++ behind rest) = none := by
  induction rest generalizing next before with
  | nil =>
    have hbehind : next ++ behind [] = next := List.append_nil _
    rw [hbehind]
    exact contentEnd?_last (hlines next List.mem_cons_self) before
  | cons line rest ih =>
    rw [List.forall_mem_cons] at hlines hrest
    have hline := hlines.2 line List.mem_cons_self
    rw [behind_cons, contentEnd?_line hlines.1 hline (atLineEnd_behind rest) hrest.1]
    exact ih hlines.2 hrest.2 _

/-! ## Matches -/

/-- A block opens with a fence and its line feed, at the start of a line. -/
theorem allEnds_opening {line tail before : Text} (hline : '\n' ∉ line) (htail : AtLineEnd tail)
    (hbefore : before.head?.all (· == '\n') = true) :
    allEnds fencePattern.opening ⟨before, line ++ tail⟩ =
      if isFence line then allEnds [.one (· == '\n')] ⟨line.reverse ++ before, tail⟩ else [] := by
  have hfeed (before : Text) (c : Char) (after : Text) (hc : c ≠ '\n') :
      allEnds [.one (· == '\n')] ⟨before, c :: after⟩ = [] := by
    rw [allEnds_singleton, ends, beq_eq_false_iff_ne.mpr hc]
    rfl
  rw [fencePattern, allEnds, ends, if_pos hbefore, List.flatMap_singleton,
    allEnds_fenceItems hfeed hline htail]

/-- No block opens within a line. -/
theorem head?_matchesAt_inside {before : Text} (h : before.head?.all (· == '\n') = false)
    (after : Text) :
    (fencePattern.matchesAt ⟨before, after⟩).head? = none := by
  have hopening : allEnds fencePattern.opening ⟨before, after⟩ = [] := by
    rw [fencePattern, allEnds, ends, h]
    rfl
  rw [matchesAt, hopening]
  rfl

/-- No block opens at a line that is no fence, or has no fence behind the next line. -/
private theorem head?_matchesAt_line {line : Text} {lines : List Text}
    (hlines : ∀ other ∈ line :: lines, '\n' ∉ other)
    (h : isFence line = true → ∀ other ∈ lines.drop 1, isFence other = false) (before : Text) :
    (fencePattern.matchesAt ⟨before, Text.join ['\n'] (line :: lines)⟩).head? = none := by
  cases hbefore : before.head?.all (· == '\n') with
  | false => exact head?_matchesAt_inside hbefore _
  | true =>
    rw [List.forall_mem_cons] at hlines
    rw [head?_matchesAt_of_content rfl, join_cons,
      allEnds_opening hlines.1 (atLineEnd_behind lines) hbefore]
    by_cases hfence : isFence line = true
    · rw [if_pos hfence]
      cases lines with
      | nil => rfl
      | cons next rest =>
        have hnone := contentEnd?_eq_none_of_free hlines.2 (h hfence)
          ('\n' :: (line.reverse ++ before))
        rw [behind_cons, allEnds_singleton, ends, beq_self_eq_true, if_pos rfl,
          List.findSome?_cons, hnone]
        rfl
    · rw [if_neg hfence]
      rfl

/-- A block opens at a fence that has another one behind the next line. -/
private theorem exists_match_fences {opener next closer : Text} {body rest : List Text}
    (hlines : ∀ line ∈ opener :: next :: (body ++ closer :: rest), '\n' ∉ line)
    (hopener : isFence opener = true) (hbody : ∀ line ∈ body, isFence line = false)
    (hcloser : isFence closer = true) {before : Text}
    (hbefore : before.head?.all (· == '\n') = true) :
    ∃ found, (fencePattern.matchesAt
        ⟨before, Text.join ['\n'] (opener :: next :: (body ++ closer :: rest))⟩).head? =
          some found ∧
      found.occurrence =
        { content := dropReturn (Text.join ['\n'] (next :: body)), start := before.byteSize
          stop := before.byteSize + lineBytes (opener :: next :: body) + closer.byteSize } ∧
      found.stop = ⟨(Text.join ['\n'] (opener :: next :: (body ++ [closer]))).reverse ++ before,
        behind rest⟩ := by
  rw [List.forall_mem_cons] at hlines
  obtain ⟨contentStop, hend, hstop⟩ :=
    contentEnd?_body hlines.2 hbody hcloser ('\n' :: (opener.reverse ++ before))
  have hclosed : (next ++ behind (body ++ [closer])).reverse ++ '\n' :: (opener.reverse ++ before) =
      (Text.join ['\n'] (opener :: next :: (body ++ [closer]))).reverse ++ before := by
    rw [join_cons, behind_cons]
    simp only [List.reverse_append, List.reverse_cons, List.append_assoc, List.cons_append,
      List.nil_append]
  have hsize : lineBytes (opener :: next :: body) + closer.byteSize =
      (Text.join ['\n'] (opener :: next :: (body ++ [closer]))).byteSize := by
    have hsum : lineBytes (opener :: next :: (body ++ [closer])) = _ :=
      Text.byteSize_join_line (List.cons_ne_nil _ _)
    simp only [lineBytes_cons, lineBytes_append, show lineBytes [] = 0 from rfl] at hsum ⊢
    omega
  refine ⟨⟨⟨before, Text.join ['\n'] (opener :: next :: (body ++ closer :: rest))⟩,
    ⟨'\n' :: (opener.reverse ++ before), next ++ behind (body ++ closer :: rest)⟩, contentStop,
    ⟨(Text.join ['\n'] (opener :: next :: (body ++ [closer]))).reverse ++ before, behind rest⟩⟩,
      ?_, ?_, rfl⟩
  · rw [head?_matchesAt_of_content rfl, join_cons,
      allEnds_opening hlines.1 (atLineEnd_behind _) hbefore, if_pos hopener, behind_cons,
      allEnds_singleton, ends, beq_self_eq_true, if_pos rfl, List.findSome?_cons, hend, hclosed]
    rfl
  · rw [Match.occurrence]
    simp only [hstop, List.length_append, Nat.add_sub_cancel, List.take_left', List.reverse_reverse,
      Text.byteSize_append, Text.byteSize_reverse, ← hsize]
    congr 1
    omega

/-! ## Searches -/

theorem consumes_fencePattern : fencePattern.Consumes := by
  exact consumes_of_one (List.mem_cons_of_mem _ List.mem_cons_self)

/-- No block opens but at a dash. -/
theorem head?_matchesAt_of_ne {after : Text} (h : ∀ c ∈ after.head?, c ≠ '-') (before : Text) :
    (fencePattern.matchesAt ⟨before, after⟩).head? = none := by
  have hdashes : allEnds (fenceItems [.one (· == '\n')]) ⟨before, after⟩ = [] := by
    cases after with
    | nil => rfl
    | cons c after =>
      have hc : '-' ≠ c := (h c rfl).symm
      rw [fenceItems, allEnds_literal_append, Text.after?, if_neg hc]
      rfl
  have hopening : allEnds fencePattern.opening ⟨before, after⟩ = [] := by
    rw [fencePattern, allEnds, ends]
    split
    · rw [List.flatMap_singleton, hdashes]
    · rfl
  rw [matchesAt, hopening]
  rfl

/-- Nothing is found in an empty text. -/
theorem searchAll_nil (before : Text) : fencePattern.searchAll ⟨before, []⟩ = [] :=
  searchAll_eq_nil (head?_matchesAt_of_ne (fun _ hc => by cases hc) before)

/-- A line feed is passed over. -/
theorem searchAll_feed (before after : Text) :
    fencePattern.searchAll ⟨before, '\n' :: after⟩ =
      fencePattern.searchAll ⟨'\n' :: before, after⟩ := by
  apply consumes_fencePattern.searchAll_cons
  apply head?_matchesAt_of_ne
  rintro c hc rfl
  cases hc

private theorem searchAll_inside {line : Text} (hline : '\n' ∉ line) {before : Text}
    (hbefore : before.head?.all (· == '\n') = false) (tail : Text) :
    fencePattern.searchAll ⟨before, line ++ tail⟩ =
      fencePattern.searchAll ⟨line.reverse ++ before, tail⟩ := by
  induction line generalizing before with
  | nil => rfl
  | cons c line ih =>
    rw [List.mem_cons, not_or] at hline
    have hc : (c :: before).head?.all (· == '\n') = false :=
      beq_eq_false_iff_ne.mpr (Ne.symm hline.1)
    rw [List.cons_append, consumes_fencePattern.searchAll_cons (head?_matchesAt_inside hbefore _),
      ih hline.2 hc, List.reverse_cons, List.append_assoc, List.singleton_append]

/-- A line without a match at its start is passed over. -/
theorem searchAll_line {line : Text} {lines : List Text}
    (hlines : ∀ other ∈ line :: lines, '\n' ∉ other)
    (h : isFence line = true → ∀ other ∈ lines.drop 1, isFence other = false) (before : Text) :
    fencePattern.searchAll ⟨before, Text.join ['\n'] (line :: lines)⟩ =
      fencePattern.searchAll ⟨line.reverse ++ before, behind lines⟩ := by
  have hnone := head?_matchesAt_line hlines h before
  rw [List.forall_mem_cons] at hlines
  rw [join_cons] at hnone ⊢
  cases line with
  | nil => rfl
  | cons c line =>
    have hline := hlines.1
    rw [List.mem_cons, not_or] at hline
    have hc : (c :: before).head?.all (· == '\n') = false :=
      beq_eq_false_iff_ne.mpr (Ne.symm hline.1)
    rw [List.cons_append] at hnone ⊢
    rw [consumes_fencePattern.searchAll_cons hnone, searchAll_inside hline.2 hc, List.reverse_cons,
      List.append_assoc, List.singleton_append]

private theorem searchAll_of_unpaired {lines : List Text} (hlines : ∀ line ∈ lines, '\n' ∉ line)
    (h : Unpaired lines) (before : Text) :
    fencePattern.searchAll ⟨before, Text.join ['\n'] lines⟩ = [] := by
  induction lines generalizing before with
  | nil => exact searchAll_nil before
  | cons line lines ih =>
    have hfence : isFence line = true → ∀ other ∈ lines.drop 1, isFence other = false := by
      intro hline other hother
      obtain ⟨position, hposition⟩ := List.mem_iff_getElem?.mp hother
      rw [List.getElem?_drop, Nat.add_comm] at hposition
      rw [← Bool.not_eq_true, isFence_iff]
      intro hspelled
      exact h 0 (position + 2) ⟨line, rfl, isFence_iff.mp hline⟩ (by omega)
        ⟨other, hposition, hspelled⟩
    have hrest : Unpaired lines := by
      intro first second hfirst hle
      exact h (first + 1) (second + 1) hfirst (by omega)
    rw [searchAll_line hlines hfence]
    cases lines with
    | nil => exact searchAll_nil _
    | cons next lines =>
      rw [behind_cons_eq_join, searchAll_feed]
      exact ih (List.forall_mem_cons.mp hlines).2 hrest _

private theorem searchAll_front {front others : List Text}
    (hlines : ∀ line ∈ front ++ others, '\n' ∉ line) (hfront : ∀ line ∈ front, isFence line = false)
    (hothers : others ≠ []) (before : Text) :
    fencePattern.searchAll ⟨before, Text.join ['\n'] (front ++ others)⟩ =
      fencePattern.searchAll ⟨(front.flatMap (· ++ ['\n'])).reverse ++ before,
        Text.join ['\n'] others⟩ := by
  induction front generalizing before with
  | nil => rfl
  | cons line front ih =>
    rw [List.forall_mem_cons] at hfront
    rw [List.cons_append] at hlines ⊢
    rw [searchAll_line hlines fun hfence => absurd hfence (hfront.1 ▸ Bool.false_ne_true)]
    obtain ⟨next, rest, hrest⟩ :=
      List.exists_cons_of_ne_nil (List.append_ne_nil_of_right_ne_nil front hothers)
    rw [hrest, behind_cons_eq_join, searchAll_feed, ← hrest,
      ih (List.forall_mem_cons.mp hlines).2 hfront.2]
    simp only [List.flatMap_cons, List.reverse_append, List.reverse_cons, List.append_assoc,
      List.cons_append, List.nil_append]

private theorem byteSize_flatMap_line (lines : List Text) :
    Text.byteSize (lines.flatMap (· ++ ['\n'])) = lineBytes lines := by
  induction lines with
  | nil => rfl
  | cons line lines ih =>
    rw [List.flatMap_cons, Text.byteSize_append, Text.byteSize_append, ih, lineBytes_cons]
    rfl

private theorem head?_flatMap_line (lines : List Text) {before : Text}
    (hbefore : before.head?.all (· == '\n') = true) :
    ((lines.flatMap (· ++ ['\n'])).reverse ++ before).head?.all (· == '\n') = true := by
  rcases List.eq_nil_or_concat lines with rfl | ⟨front, last, rfl⟩
  · exact hbefore
  · simp

/-- From the start of a line on, the pattern finds the pairs of fences. -/
private theorem map_occurrence_searchAll_fences (lines : List Text)
    (hlines : ∀ line ∈ lines, '\n' ∉ line) (before : Text)
    (hbefore : before.head?.all (· == '\n') = true) :
    (fencePattern.searchAll ⟨before, Text.join ['\n'] lines⟩).map Match.occurrence =
      fencedFrom before.byteSize none lines := by
  rcases fencedFrom_cases before.byteSize lines with
    ⟨hunpaired, hnothing⟩ | ⟨front, opener, next, body, closer, rest, hpair, hfound⟩
  · rw [hnothing, searchAll_of_unpaired hlines hunpaired]
    rfl
  · rw [hfound]
    rw [hpair.lines_eq] at hlines ⊢
    have hothers : ∀ line ∈ opener :: next :: (body ++ closer :: rest), '\n' ∉ line :=
      fun line hline => hlines line (List.mem_append_right _ hline)
    obtain ⟨found, hfirst, hoccurrence, hstop⟩ :=
      exists_match_fences hothers hpair.opener_isFence hpair.body_free hpair.closer_isFence
        (head?_flatMap_line front hbefore)
    rw [searchAll_front hlines hpair.front_free (List.cons_ne_nil _ _),
      consumes_fencePattern.searchAll_eq (search_eq_some hfirst), List.map_cons, hoccurrence, hstop]
    have hsize : Text.byteSize ((front.flatMap (· ++ ['\n'])).reverse ++ before) =
        before.byteSize + lineBytes front := by
      rw [Text.byteSize_append, Text.byteSize_reverse, byteSize_flatMap_line, Nat.add_comm]
    congr 1
    · rw [hsize, lineBytes_append, Nat.add_assoc before.byteSize]
    · cases rest with
      | nil =>
        have hnothing : behind [] = [] := rfl
        rw [hnothing, searchAll_nil]
        rfl
      | cons line rest =>
        have hrest : ∀ other ∈ line :: rest, '\n' ∉ other := fun other hother =>
          hothers other (List.mem_cons_of_mem _ (List.mem_cons_of_mem _
            (List.mem_append_right body (List.mem_cons_of_mem _ hother))))
        have hblock : lineBytes (opener :: next :: (body ++ [closer])) = _ :=
          Text.byteSize_join_line (List.cons_ne_nil _ _)
        rw [behind_cons_eq_join, searchAll_feed,
          map_occurrence_searchAll_fences (line :: rest) hrest _ rfl, Text.byteSize_cons,
          Text.byteSize_append, Text.byteSize_reverse, hsize, lineBytes_append, hblock]
        congr 1
        have hfeed : '\n'.utf8Size = 1 := rfl
        omega
termination_by lines.length
decreasing_by
  rw [hpair.lines_eq]
  simp only [List.length_append, List.length_cons]
  omega

/-- The pattern of a fenced block finds exactly the fenced blocks of a file. -/
theorem occurrences_fencePattern (text : Text) : fencePattern.occurrences text = fenced text := by
  have hlines : ∀ line ∈ Text.pieces ['\n'] text, '\n' ∉ line := by
    intro line hline
    rw [← List.singleton_infix_iff]
    exact Text.not_isInfix_of_mem_pieces (List.cons_ne_nil _ _) hline
  have hfound := map_occurrence_searchAll_fences _ hlines [] rfl
  rwa [Text.join_pieces (List.cons_ne_nil _ _)] at hfound

/-- The backend is what the pattern of a fenced block finds, and what the line numbers of the fences
say. -/
theorem describesFences_backend (text : Text) :
    (of text).backend = Block.ofOccurrences? (fencePattern.occurrences text) ∧
      DescribesFences (Text.pieces ['\n'] text) (of text).backend := by
  rw [occurrences_fencePattern]
  exact ⟨rfl, describesFences_fencedFrom _⟩

end ComponentFile.Extraction
