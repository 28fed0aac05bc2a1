import ComponentFile.Template.Segment
import Mathlib.Data.List.Infix

/-!
# Segments of a joined text

Reading a text into segments can be done piece by piece as long as no item starts in one piece and
ends in the next. A recogniser that never reports more characters than there are then reads the two
pieces independently (`segments_append`).
-/

namespace ComponentFile.Segment

variable {α : Type}

/-- The recogniser never takes more characters than the text has. -/
def Fits (recognise : Recogniser α) : Prop :=
  ∀ text value length, recognise text = some (value, length) → length ≤ text.length

/-- No item starts in `left` and depends on `right`. -/
def Separates (recognise : Recogniser α) (left right : Text) : Prop :=
  ∀ c rest, c :: rest <:+ left → recognise (c :: rest ++ right) = recognise (c :: rest)

/-- Separation passes to the end of the left piece. -/
theorem Separates.of_isSuffix {recognise : Recogniser α} {left tail right : Text}
    (h : Separates recognise left right) (ht : tail <:+ left) : Separates recognise tail right :=
  fun c rest hs => h c rest (hs.trans ht)

/-- Skipped characters take no part in a scan. -/
theorem scan_eq_scan_drop (recognise : Recogniser α) (skip : Nat) (text : Text) :
    scan recognise skip text = scan recognise 0 (text.drop skip) := by
  induction text generalizing skip with
  | nil => simp only [List.drop_nil, scan]
  | cons c rest ih =>
    cases skip with
    | zero => rfl
    | succ skip => simpa only [scan, List.drop_succ_cons] using ih skip

/-- A scan over two separated pieces reads the first piece and then starts afresh. -/
private theorem scan_append {recognise : Recogniser α} (hfit : Fits recognise) {left right : Text}
    (h : Separates recognise left right) {skip : Nat} (hskip : skip ≤ left.length) :
    scan recognise skip (left ++ right) = scan recognise skip left ++ scan recognise 0 right := by
  induction left generalizing skip with
  | nil =>
    obtain rfl : skip = 0 := by simpa only [List.length_nil, Nat.le_zero] using hskip
    simp only [List.nil_append, scan]
  | cons c rest ih =>
    have hrest := h.of_isSuffix (List.suffix_cons c rest)
    cases skip with
    | succ skip =>
      simpa only [List.cons_append, scan] using ih hrest (Nat.le_of_succ_le_succ hskip)
    | zero =>
      have hsame := h c rest List.suffix_rfl
      simp only [List.cons_append] at hsame ⊢
      rw [scan, scan, hsame]
      split
      · next value length hr =>
        have hlength : length ≤ rest.length := Nat.le_of_succ_le_succ (hfit _ _ _ hr)
        have htake : (c :: (rest ++ right)).take (length + 1) = (c :: rest).take (length + 1) := by
          rw [List.take_succ_cons, List.take_succ_cons, List.take_append_of_le_length hlength]
        rw [htake, ih hrest hlength, List.cons_append]
      · rw [ih hrest (Nat.zero_le _), List.cons_append]

/-- The segments of two separated pieces are those of the one and then those of the other. -/
theorem segments_append {recognise : Recogniser α} (hfit : Fits recognise) {left right : Text}
    (h : Separates recognise left right) :
    segments recognise (left ++ right) = segments recognise left ++ segments recognise right :=
  scan_append hfit h (Nat.zero_le _)

/-- Where nothing is read the reading goes on with the next character. -/
theorem segments_cons_of_none {recognise : Recogniser α} {c : Char} {rest : Text}
    (h : recognise (c :: rest) = none) :
    segments recognise (c :: rest) = .char c :: segments recognise rest := by
  rw [segments, scan, h]
  rfl

/-- Behind an item the reading starts afresh. -/
theorem segments_append_of_some {recognise : Recogniser α} {source rest : Text} {value : α}
    (hne : source ≠ []) (h : recognise (source ++ rest) = some (value, source.length)) :
    segments recognise (source ++ rest) = .item source value :: segments recognise rest := by
  obtain ⟨c, tail, rfl⟩ := List.exists_cons_of_ne_nil hne
  rw [List.cons_append] at h ⊢
  rw [segments, scan, h]
  dsimp only [List.length_cons]
  rw [List.take_succ_cons, List.take_left, scan_eq_scan_drop, List.drop_left]
  rfl

/-- An item that takes up the whole text is the only segment. -/
theorem segments_whole {recognise : Recogniser α} {c : Char} {rest : Text} {value : α}
    (h : recognise (c :: rest) = some (value, rest.length + 1)) :
    segments recognise (c :: rest) = [.item (c :: rest) value] := by
  rw [segments, scan, h]
  simp only [List.take_succ_cons, List.take_length, scan_eq_scan_drop recognise rest.length,
    List.drop_length, scan]

/-- The values of the items among segments. -/
def values (segments : List (Segment α)) : List α :=
  segments.filterMap fun
    | .char _ => none
    | .item _ value => some value

@[simp] theorem values_nil : values ([] : List (Segment α)) = [] := rfl

@[simp] theorem values_char (c : Char) (rest : List (Segment α)) :
    values (.char c :: rest) = values rest := rfl

@[simp] theorem values_item (source : Text) (value : α) (rest : List (Segment α)) :
    values (.item source value :: rest) = value :: values rest := rfl

@[simp] theorem values_append (left right : List (Segment α)) :
    values (left ++ right) = values left ++ values right := by
  simp only [values, List.filterMap_append]

theorem values_segments_cons {recognise : Recogniser α} {c : Char} {rest : Text}
    (h : recognise (c :: rest) = none) :
    values (segments recognise (c :: rest)) = values (segments recognise rest) := by
  rw [segments_cons_of_none h, values_char]

theorem values_segments_append {recognise : Recogniser α} {source rest : Text} {value : α}
    (hne : source ≠ []) (h : recognise (source ++ rest) = some (value, source.length)) :
    values (segments recognise (source ++ rest)) = value :: values (segments recognise rest) := by
  rw [segments_append_of_some hne h, values_item]

/-- Nothing is read in a text in which no item starts. -/
theorem values_segments_of_none {recognise : Recogniser α} {front rest : Text}
    (h : ∀ c tail, c :: tail <:+ front → recognise (c :: (tail ++ rest)) = none) :
    values (segments recognise (front ++ rest)) = values (segments recognise rest) := by
  induction front with
  | nil => rfl
  | cons c front ih =>
    rw [List.cons_append, values_segments_cons (h c front List.suffix_rfl)]
    exact ih fun d tail hsuffix => h d tail (hsuffix.trans (List.suffix_cons c front))

theorem mem_values_of_mem {segments : List (Segment α)} {source : Text} {value : α}
    (h : .item source value ∈ segments) : value ∈ values segments :=
  List.mem_filterMap.mpr ⟨_, h, rfl⟩

/-- An item of a scan was recognised at the front of a rest of the text. -/
theorem exists_isSuffix_of_mem_scan {recognise : Recogniser α} {skip : Nat} {text source : Text}
    {value : α} (h : .item source value ∈ scan recognise skip text) :
    ∃ tail length, tail <:+ text ∧ recognise tail = some (value, length) ∧
      source = tail.take length := by
  induction text generalizing skip with
  | nil => cases h
  | cons c rest ih =>
    have hlater {skip : Nat} (hm : .item source value ∈ scan recognise skip rest) :
        ∃ tail length, tail <:+ c :: rest ∧ recognise tail = some (value, length) ∧
          source = tail.take length := by
      obtain ⟨tail, length, hsuffix, hread⟩ := ih hm
      exact ⟨tail, length, hsuffix.trans (List.suffix_cons c rest), hread⟩
    cases skip with
    | succ skip => exact hlater h
    | zero =>
      rw [scan] at h
      split at h
      · next found length hread =>
        rcases List.mem_cons.mp h with he | h
        · obtain ⟨rfl, rfl⟩ := Segment.item.inj he
          exact ⟨c :: rest, length + 1, List.suffix_rfl, hread, rfl⟩
        · exact hlater h
      · rcases List.mem_cons.mp h with he | h
        · cases he
        · exact hlater h

/-- Locating the items keeps their values and their order. -/
theorem map_fst_located (offset : Nat) (segments : List (Segment α)) :
    (located offset segments).map Prod.fst = values segments := by
  induction segments generalizing offset with
  | nil => rfl
  | cons segment rest ih =>
    cases segment with
    | char c => simpa only [located, values_char] using ih _
    | item source value => simp only [located, List.map_cons, values_item, ih]

/-! ## Places of items -/

/-- The items of two lists of segments are located one list after the other. -/
private theorem located_append (offset : Nat) (left right : List (Segment α)) :
    located offset (left ++ right) =
      located offset left ++ located (offset + (sources left).byteSize) right := by
  induction left generalizing offset with
  | nil => rfl
  | cons segment left ih =>
    rw [sources_cons, Text.byteSize_append, ← Nat.add_assoc]
    cases segment with
    | char c => exact ih _
    | item source value => exact congrArg _ (ih _)

/-- Located items split where the segments split. -/
theorem exists_of_located_eq_append {offset start stop : Nat} {segments : List (Segment α)}
    {value : α} {before after : List (α × Nat × Nat)}
    (h : located offset segments = before ++ (value, start, stop) :: after) :
    ∃ left source right, segments = left ++ .item source value :: right ∧
      start = offset + (sources left).byteSize ∧ stop = start + source.byteSize ∧
      values left = before.map Prod.fst := by
  induction segments generalizing offset before with
  | nil => exact absurd h.symm (List.append_ne_nil_of_right_ne_nil _ (List.cons_ne_nil _ _))
  | cons segment rest ih =>
    cases segment with
    | char c =>
      obtain ⟨left, source, right, rfl, rfl, hstop, hvalues⟩ := ih h
      refine ⟨.char c :: left, source, right, rfl, ?_, hstop, hvalues⟩
      rw [sources_cons, Text.byteSize_append, Nat.add_assoc]
      rfl
    | item source found =>
      cases before with
      | nil =>
        obtain ⟨rfl, rfl, rfl⟩ : found = value ∧ offset = start ∧
          offset + source.byteSize = stop := by
          simpa only [Prod.mk.injEq] using (List.cons.inj h).1
        exact ⟨[], source, rest, rfl, rfl, rfl, rfl⟩
      | cons first before =>
        obtain ⟨rfl, hnext⟩ := List.cons.inj h
        obtain ⟨left, other, right, rfl, rfl, hstop, hvalues⟩ := ih hnext
        refine ⟨.item source found :: left, other, right, rfl, ?_, hstop, ?_⟩
        · rw [sources_cons, Text.byteSize_append, Nat.add_assoc]
          rfl
        · rw [values_item, hvalues]
          rfl

/-- A located item is one of the segments, and its place follows from the segments before it. -/
theorem mem_located_iff {offset start stop : Nat} {segments : List (Segment α)} {value : α} :
    (value, start, stop) ∈ located offset segments ↔
      ∃ left source right, segments = left ++ .item source value :: right ∧
        start = offset + (sources left).byteSize ∧ stop = start + source.byteSize := by
  constructor
  · intro h
    obtain ⟨before, after, hlocated⟩ := List.append_of_mem h
    obtain ⟨left, source, right, hsegments, hstart, hstop, -⟩ :=
      exists_of_located_eq_append hlocated
    exact ⟨left, source, right, hsegments, hstart, hstop⟩
  · rintro ⟨left, source, right, rfl, rfl, rfl⟩
    rw [located_append]
    exact List.mem_append_right _ List.mem_cons_self

/-- Located items stand one after the other. -/
theorem pairwise_located (offset : Nat) (segments : List (Segment α)) :
    (located offset segments).Pairwise fun left right => left.2.2 ≤ right.2.1 := by
  induction segments generalizing offset with
  | nil => exact List.Pairwise.nil
  | cons segment rest ih =>
    cases segment with
    | char c => exact ih _
    | item source value =>
      refine List.Pairwise.cons ?_ (ih _)
      rintro ⟨other, start, stop⟩ hmem
      obtain ⟨left, -, -, -, hstart, -⟩ := mem_located_iff.mp hmem
      exact hstart ▸ Nat.le_add_right _ _

end ComponentFile.Segment
