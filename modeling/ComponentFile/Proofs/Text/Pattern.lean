import ComponentFile.Block.Basic
import ComponentFile.Proofs.Text.Lines

/-!
# Patterns

A pattern describes a piece of text by parts that follow each other: single characters of a class,
characters that may be missing, runs that are as long or as short as possible, and the ends of a
line. A pattern may match in several ways at one place; the ways are listed in the order in which
they are preferred, the choices of earlier parts before those of later ones, and the first one
counts. A search takes the leftmost place at which there is a match, and goes on behind the match.
-/

namespace ComponentFile

/-- The order of the characters does not matter for the number of bytes. -/
theorem Text.byteSize_reverse (text : Text) : Text.byteSize text.reverse = text.byteSize := by
  induction text with
  | nil => rfl
  | cons c text ih =>
    rw [List.reverse_cons, Text.byteSize_append, ih, Text.byteSize_cons, Text.byteSize_cons,
      Text.byteSize_nil]
    omega

/-- A place in a text: the characters before it, the nearest one first, and those after it. -/
structure Cursor where
  before : Text
  after : Text
  deriving DecidableEq, Repr

namespace Pattern

/-- A part of a pattern. -/
inductive Item where
  /-- One character of the class. -/
  | one (accepts : Char → Bool)
  /-- One character of the class, or else nothing. -/
  | optional (accepts : Char → Bool)
  /-- Characters of the class, as many as possible. -/
  | many (accepts : Char → Bool)
  /-- Characters of the class, as few as possible. -/
  | few (accepts : Char → Bool)
  /-- The start of a line. -/
  | lineStart
  /-- The end of a line. -/
  | lineEnd

namespace Item

/-- The ends of a run of characters of the class, the longest run first. -/
def manyFrom (accepts : Char → Bool) (before : Text) : Text → List Cursor
  | [] => [⟨before, []⟩]
  | c :: after =>
    if accepts c then manyFrom accepts (c :: before) after ++ [⟨before, c :: after⟩]
    else [⟨before, c :: after⟩]

/-- The ends of a run of characters of the class, the shortest run first. -/
def fewFrom (accepts : Char → Bool) (before : Text) : Text → List Cursor
  | [] => [⟨before, []⟩]
  | c :: after =>
    ⟨before, c :: after⟩ :: if accepts c then fewFrom accepts (c :: before) after else []

/-- The places at which a part that starts at the given place may end, the preferred one first. -/
def ends : Item → Cursor → List Cursor
  | .one _, ⟨_, []⟩ => []
  | .one accepts, ⟨before, c :: after⟩ => if accepts c then [⟨c :: before, after⟩] else []
  | .optional _, ⟨before, []⟩ => [⟨before, []⟩]
  | .optional accepts, ⟨before, c :: after⟩ =>
    (if accepts c then [⟨c :: before, after⟩] else []) ++ [⟨before, c :: after⟩]
  | .many accepts, ⟨before, after⟩ => manyFrom accepts before after
  | .few accepts, ⟨before, after⟩ => fewFrom accepts before after
  | .lineStart, ⟨before, after⟩ => if before.head?.all (· == '\n') then [⟨before, after⟩] else []
  | .lineEnd, ⟨before, after⟩ => if after.head?.all (· == '\n') then [⟨before, after⟩] else []

/-- The parts that spell a text. -/
def literal (text : Text) : List Item := text.map fun c => .one (· == c)

/-- The places at which parts that follow each other may end, the preferred one first. -/
def allEnds : List Item → Cursor → List Cursor
  | [], place => [place]
  | item :: items, place => (item.ends place).flatMap (allEnds items)

section

variable {accepts : Char → Bool} {items : List Item}

/-- Parts that spell a text need the text. -/
theorem allEnds_literal_append (mark : Text) (before after : Text) :
    allEnds (literal mark ++ items) ⟨before, after⟩ =
      ((Text.after? mark after).map fun rest =>
        allEnds items ⟨mark.reverse ++ before, rest⟩).getD [] := by
  induction mark generalizing before after with
  | nil => rfl
  | cons m mark ih =>
    cases after with
    | nil => rfl
    | cons c after =>
      by_cases hc : c = m
      · have hone : (Item.one (· == m)).ends ⟨before, c :: after⟩ = [⟨c :: before, after⟩] := by
          simp only [ends, hc, beq_self_eq_true, if_true]
        rw [literal, List.map_cons, List.cons_append, allEnds, hone, List.flatMap_singleton,
          ← literal, ih, hc, Text.after?, if_pos rfl, List.reverse_cons, List.append_assoc,
          List.singleton_append]
      · have hone : (Item.one (· == m)).ends ⟨before, c :: after⟩ = [] := by
          simp only [ends, beq_eq_false_iff_ne.mpr hc, Bool.false_eq_true, if_false]
        rw [literal, List.map_cons, List.cons_append, allEnds, hone, Text.after?,
          if_neg (Ne.symm hc)]
        rfl

/-- A run as long as possible goes to its end when nothing else can follow inside of it. -/
theorem allEnds_many
    (h : ∀ before c after, accepts c = true → allEnds items ⟨before, c :: after⟩ = [])
    (before after : Text) :
    allEnds (.many accepts :: items) ⟨before, after⟩ =
      allEnds items ⟨(after.takeWhile accepts).reverse ++ before, after.dropWhile accepts⟩ := by
  have hrun : (manyFrom accepts before after).flatMap (allEnds items) =
      allEnds items ⟨(after.takeWhile accepts).reverse ++ before, after.dropWhile accepts⟩ := by
    induction after generalizing before with
    | nil => rw [manyFrom, List.flatMap_singleton]; rfl
    | cons c after ih =>
      rw [manyFrom]
      by_cases hc : accepts c = true
      · rw [if_pos hc, List.flatMap_append, ih, List.flatMap_singleton, h before c after hc,
          List.append_nil, List.takeWhile_cons_of_pos hc, List.dropWhile_cons_of_pos hc,
          List.reverse_cons, List.append_assoc, List.singleton_append]
      · rw [if_neg hc, List.flatMap_singleton, List.takeWhile_cons_of_neg hc,
          List.dropWhile_cons_of_neg hc]
        rfl
  exact hrun

/-- A character that may be missing is taken first if it is there. -/
theorem allEnds_optional_cons (before : Text) (c : Char) (after : Text) :
    allEnds (.optional accepts :: items) ⟨before, c :: after⟩ =
      (if accepts c then allEnds items ⟨c :: before, after⟩ else []) ++
        allEnds items ⟨before, c :: after⟩ := by
  rw [allEnds, ends, List.flatMap_append, List.flatMap_singleton]
  split
  · rw [List.flatMap_singleton]
  · rfl

theorem allEnds_optional_nil (before : Text) :
    allEnds (.optional accepts :: items) ⟨before, []⟩ = allEnds items ⟨before, []⟩ := by
  rw [allEnds, ends, List.flatMap_singleton]

theorem allEnds_singleton (item : Item) (place : Cursor) :
    allEnds [item] place = item.ends place := by
  rw [allEnds]
  exact List.flatMap_singleton' _

end

/-! ## Places behind a place -/

private theorem after_isSuffix_of_mem_manyFrom {accepts : Char → Bool} {before after : Text}
    {place : Cursor} (h : place ∈ manyFrom accepts before after) : place.after <:+ after := by
  induction after generalizing before with
  | nil =>
    rw [List.mem_singleton.mp h]
  | cons c after ih =>
    rw [manyFrom] at h
    split at h
    · rcases List.mem_append.mp h with h | h
      · exact (ih h).trans (List.suffix_cons c after)
      · rw [List.mem_singleton.mp h]
    · rw [List.mem_singleton.mp h]

theorem after_isSuffix_of_mem_fewFrom {accepts : Char → Bool} {before after : Text} {place : Cursor}
    (h : place ∈ fewFrom accepts before after) : place.after <:+ after := by
  induction after generalizing before with
  | nil =>
    rw [List.mem_singleton.mp h]
  | cons c after ih =>
    rcases List.mem_cons.mp h with rfl | h
    · exact List.suffix_rfl
    · split at h
      · exact (ih h).trans (List.suffix_cons c after)
      · cases h

/-- A part of a pattern ends at or behind the place where it starts. -/
theorem after_isSuffix_of_mem_ends {item : Item} {start place : Cursor}
    (h : place ∈ item.ends start) :
    place.after <:+ start.after := by
  obtain ⟨before, after⟩ := start
  cases item with
  | many accepts => exact after_isSuffix_of_mem_manyFrom h
  | few accepts => exact after_isSuffix_of_mem_fewFrom h
  | lineStart | lineEnd =>
    rw [ends] at h
    split at h
    · rw [List.mem_singleton.mp h]
    · cases h
  | one accepts =>
    cases after with
    | nil => cases h
    | cons c after =>
      rw [ends] at h
      split at h
      · rw [List.mem_singleton.mp h]
        exact List.suffix_cons c after
      · cases h
  | optional accepts =>
    cases after with
    | nil => rw [List.mem_singleton.mp h]
    | cons c after =>
      rw [ends, List.mem_append] at h
      rcases h with h | h
      · split at h
        · rw [List.mem_singleton.mp h]
          exact List.suffix_cons c after
        · cases h
      · rw [List.mem_singleton.mp h]

theorem after_isSuffix_of_mem_allEnds {items : List Item} {start place : Cursor}
    (h : place ∈ allEnds items start) :
    place.after <:+ start.after := by
  induction items generalizing start with
  | nil => rw [List.mem_singleton.mp h]
  | cons item items ih =>
    obtain ⟨next, hnext, hplace⟩ := List.mem_flatMap.mp h
    exact (ih hplace).trans (after_isSuffix_of_mem_ends hnext)

/-- Parts that ask for a character take one at least. -/
theorem length_lt_of_mem_allEnds {accepts : Char → Bool} {items : List Item}
    (hone : .one accepts ∈ items) {start place : Cursor} (h : place ∈ allEnds items start) :
    place.after.length < start.after.length := by
  induction items generalizing start with
  | nil => cases hone
  | cons item items ih =>
    obtain ⟨next, hnext, hplace⟩ := List.mem_flatMap.mp h
    rcases List.mem_cons.mp hone with rfl | hone
    · have hrest := (after_isSuffix_of_mem_allEnds hplace).length_le
      obtain ⟨before, after⟩ := start
      cases after with
      | nil => cases hnext
      | cons c after =>
        rw [ends] at hnext
        split at hnext
        · rw [List.mem_singleton.mp hnext] at hrest
          exact Nat.lt_succ_of_le hrest
        · cases hnext
    · exact Nat.lt_of_lt_of_le (ih hone hplace) (after_isSuffix_of_mem_ends hnext).length_le

end Item

/-- A match: where it starts and stops, and where its content starts and stops. -/
structure Match where
  start : Cursor
  contentStart : Cursor
  contentStop : Cursor
  stop : Cursor
  deriving DecidableEq, Repr

/-- The occurrence that a match stands for: the text of its content and the byte offsets of the
whole. -/
def Match.occurrence (found : Match) : Occurrence where
  content :=
    let length := found.contentStop.before.length - found.contentStart.before.length
    (found.contentStop.before.take length).reverse
  start := Text.byteSize found.start.before
  stop := Text.byteSize found.stop.before

end Pattern

open Pattern

/-- A pattern with one piece of interest, between what opens it and what closes it. -/
structure Pattern where
  opening : List Item
  content : List Item
  closing : List Item

namespace Pattern

open Item

/-- The matches at a place, the preferred one first. -/
def matchesAt (pattern : Pattern) (place : Cursor) : List Match :=
  (allEnds pattern.opening place).flatMap fun contentStart =>
    (allEnds pattern.content contentStart).flatMap fun contentStop =>
      (allEnds pattern.closing contentStop).map fun stop => ⟨place, contentStart, contentStop, stop⟩

/-- The preferred match at the leftmost place that has one. -/
def search (pattern : Pattern) (before : Text) : Text → Option Match
  | [] => (pattern.matchesAt ⟨before, []⟩).head?
  | c :: after =>
    match (pattern.matchesAt ⟨before, c :: after⟩).head? with
    | some found => some found
    | none => search pattern (c :: before) after

/-- The matches of repeated searches, each of which starts where the match before stops. A match
that does not lead on ends the search. -/
def searchAll (pattern : Pattern) (place : Cursor) : List Match :=
  match pattern.search place.before place.after with
  | none => []
  | some found =>
    found :: if found.stop.after.length < place.after.length
      then searchAll pattern found.stop else []
termination_by place.after.length

/-- What the pattern finds in a text. -/
def occurrences (pattern : Pattern) (text : Text) : List Occurrence :=
  (pattern.searchAll ⟨[], text⟩).map Match.occurrence

/-- The preferred match is made of the first choices that lead to a match. -/
theorem head?_matchesAt (pattern : Pattern) (place : Cursor) :
    (pattern.matchesAt place).head? =
      (allEnds pattern.opening place).findSome? fun contentStart =>
        (allEnds pattern.content contentStart).findSome? fun contentStop =>
          (allEnds pattern.closing contentStop).head?.map fun stop =>
            ⟨place, contentStart, contentStop, stop⟩ := by
  simp only [matchesAt, List.head?_flatMap, List.head?_map]

/-- Where a content of any characters that starts at a place stops, and where the match stops. -/
def contentEnd? (pattern : Pattern) (before after : Text) : Option (Cursor × Cursor) :=
  (fewFrom (fun _ => true) before after).findSome? fun contentStop =>
    (allEnds pattern.closing contentStop).head?.map fun stop => (contentStop, stop)

/-- A content stops as soon as the closing part can follow. -/
theorem contentEnd?_of_closing {pattern : Pattern} {before after : Text} {stop : Cursor}
    (h : (allEnds pattern.closing ⟨before, after⟩).head? = some stop) :
    pattern.contentEnd? before after = some (⟨before, after⟩, stop) := by
  cases after with
  | nil => rw [contentEnd?, fewFrom, List.findSome?_cons, h, Option.map_some]
  | cons c after => rw [contentEnd?, fewFrom, List.findSome?_cons, h, Option.map_some]

/-- A content goes on where the closing part cannot follow. -/
theorem contentEnd?_cons {pattern : Pattern} {before after : Text} {c : Char}
    (h : (allEnds pattern.closing ⟨before, c :: after⟩).head? = none) :
    pattern.contentEnd? before (c :: after) = pattern.contentEnd? (c :: before) after := by
  rw [contentEnd?, fewFrom, List.findSome?_cons, h, Option.map_none, if_pos rfl, contentEnd?]

/-- The preferred match is found by its opening part, and the end of its content. -/
theorem head?_matchesAt_of_content {pattern : Pattern} (h : pattern.content = [.few fun _ => true])
    (place : Cursor) :
    (pattern.matchesAt place).head? =
      (allEnds pattern.opening place).findSome? fun contentStart =>
        (pattern.contentEnd? contentStart.before contentStart.after).map
          fun (contentStop, stop) => ⟨place, contentStart, contentStop, stop⟩ := by
  rw [head?_matchesAt]
  congr
  funext contentStart
  rw [h, allEnds_singleton, contentEnd?, List.map_findSome?]
  simp only [ends, Function.comp_def, Option.map_map]

/-- A search passes over places without a match. -/
theorem search_cons {pattern : Pattern} {before : Text} {c : Char} {after : Text}
    (h : (pattern.matchesAt ⟨before, c :: after⟩).head? = none) :
    pattern.search before (c :: after) = pattern.search (c :: before) after := by
  rw [search, h]

/-- A search stops at a place with a match. -/
theorem search_eq_some {pattern : Pattern} {before after : Text} {found : Match}
    (h : (pattern.matchesAt ⟨before, after⟩).head? = some found) :
    pattern.search before after = some found := by
  cases after with
  | nil => exact h
  | cons c after => rw [search, h]

/-- Every match takes a character at least. -/
def Consumes (pattern : Pattern) : Prop :=
  ∀ place found, found ∈ pattern.matchesAt place → found.stop.after.length < place.after.length

/-- A pattern that opens with a character takes one. -/
theorem consumes_of_one {pattern : Pattern} {accepts : Char → Bool}
    (h : .one accepts ∈ pattern.opening) :
    pattern.Consumes := by
  intro place found hfound
  obtain ⟨contentStart, hstart, hfound⟩ := List.mem_flatMap.mp hfound
  obtain ⟨contentStop, hstop, hfound⟩ := List.mem_flatMap.mp hfound
  obtain ⟨stop, hclosing, rfl⟩ := List.mem_map.mp hfound
  have hopening := length_lt_of_mem_allEnds h hstart
  have hcontent := (after_isSuffix_of_mem_allEnds hstop).length_le
  have hrest := (after_isSuffix_of_mem_allEnds hclosing).length_le
  dsimp only
  omega

section

variable {pattern : Pattern} (hconsumes : pattern.Consumes)

include hconsumes

theorem Consumes.length_lt_of_search {before after : Text} {found : Match}
    (h : pattern.search before after = some found) : found.stop.after.length < after.length := by
  induction after generalizing before with
  | nil => exact hconsumes _ _ (List.mem_of_head? h)
  | cons c after ih =>
    rw [search] at h
    split at h
    · next hhead =>
      obtain rfl := Option.some.inj h
      exact hconsumes _ _ (List.mem_of_head? hhead)
    · exact Nat.lt_succ_of_lt (ih h)

/-- The search goes on behind a match. -/
theorem Consumes.searchAll_eq {place : Cursor} {found : Match}
    (h : pattern.search place.before place.after = some found) :
    pattern.searchAll place = found :: pattern.searchAll found.stop := by
  rw [searchAll, h]
  dsimp only
  rw [if_pos (hconsumes.length_lt_of_search h)]

end

/-- Nothing is found where no place has a match. -/
theorem searchAll_eq_nil {pattern : Pattern} {place : Cursor}
    (h : pattern.search place.before place.after = none) :
    pattern.searchAll place = [] := by
  rw [searchAll, h]

/-- Repeated searches pass over places without a match. -/
theorem Consumes.searchAll_cons {pattern : Pattern} (hconsumes : pattern.Consumes) {before : Text}
    {c : Char} {after : Text} (h : (pattern.matchesAt ⟨before, c :: after⟩).head? = none) :
    pattern.searchAll ⟨before, c :: after⟩ = pattern.searchAll ⟨c :: before, after⟩ := by
  have hsearch := search_cons h
  cases hfound : pattern.search (c :: before) after with
  | none => rw [searchAll_eq_nil (hsearch.trans hfound), searchAll_eq_nil hfound]
  | some found =>
    have hhere : pattern.searchAll ⟨c :: before, after⟩ = found :: pattern.searchAll found.stop :=
      hconsumes.searchAll_eq hfound
    rw [hhere]
    exact hconsumes.searchAll_eq (hsearch.trans hfound)

end Pattern

end ComponentFile
