import ComponentFile.Proofs.Expression.Cuts
import ComponentFile.Proofs.Text.Bytes

/-!
# Reading expression text byte by byte

Strings, brackets and parentheses can be read from the UTF-8 form alone: one byte at a time, places
given as byte offsets, and a backslash in a string literal taking one more *byte* with it. Such a
reading sees the bytes of a long character one by one. It may stop inside of one, and it reports the
offsets of all of its bytes. This is harmless: each byte gets the mark of its character, the offsets
reported are those of the marked characters and of the rest of their bytes, and parentheses are
paired alike.
-/

namespace ComponentFile.Expression

open Text

/-! ## String literals -/

/-- Marks the bytes outside string literals, given the quote of the literal that is open. -/
def codeBytesFrom : Option UInt8 → List UInt8 → List (UInt8 × Bool)
  | _, [] => []
  | none, byte :: rest =>
    if byteHas isQuote byte then (byte, false) :: codeBytesFrom (some byte) rest
    else (byte, true) :: codeBytesFrom none rest
  | some _, [byte] => [(byte, false)]
  | some quote, byte :: next :: rest =>
    if byteHas (· == '\\') byte then (byte, false) :: (next, false) ::
      codeBytesFrom (some quote) rest
    else (byte, false) :: codeBytesFrom (if byte = quote then none else some quote) (next :: rest)

/-- Marks the bytes of a text that stand outside string literals. -/
def codeBytes (text : Text) : List (UInt8 × Bool) := codeBytesFrom none (utf8 text)

/-- The bytes of marked characters, each with the mark of its character. -/
def Marked.bytes (marked : Marked) : List (UInt8 × Bool) :=
  marked.flatMap fun head => (String.utf8EncodeChar head.1).map fun byte => (byte, head.2)

theorem Marked.bytes_cons (c : Char) (mark : Bool) (rest : Marked) :
    Marked.bytes ((c, mark) :: rest) =
      (String.utf8EncodeChar c).map (fun byte => (byte, mark)) ++ rest.bytes :=
  List.flatMap_cons

namespace Marked

theorem bytes_append (left right : Marked) : bytes (left ++ right) = left.bytes ++ right.bytes :=
  List.flatMap_append

@[simp] theorem length_bytes (marked : Marked) : marked.bytes.length = marked.text.byteSize := by
  induction marked with
  | nil => rfl
  | cons head rest ih =>
    obtain ⟨c, mark⟩ := head
    rw [bytes_cons, List.length_append, List.length_map, String.length_utf8EncodeChar, ih,
      text_cons, byteSize_cons]

/-- A byte of ASCII among the bytes of marked characters is a character with its mark. -/
theorem exists_of_getElem?_bytes {marked : Marked} {offset : Nat} {byte : UInt8} {mark : Bool}
    {c : Char} (h : marked.bytes[offset]? = some (byte, mark)) (hascii : ascii? byte = some c) :
    ∃ front back, marked = front ++ (c, mark) :: back ∧ front.text.byteSize = offset := by
  induction marked generalizing offset with
  | nil => cases h
  | cons head rest ih =>
    obtain ⟨d, dmark⟩ := head
    rw [bytes_cons] at h
    rcases Nat.lt_or_ge offset d.utf8Size with hlt | hge
    · rw [List.getElem?_append_left (by rwa [List.length_map, String.length_utf8EncodeChar]),
        List.getElem?_map] at h
      obtain ⟨found, hfound, he⟩ := Option.map_eq_some_iff.mp h
      obtain ⟨rfl, rfl⟩ := Prod.mk.inj he
      have hd : IsAscii d := by
        by_contra hnot
        rw [ascii?_of_mem_utf8EncodeChar hnot (List.mem_of_getElem? hfound)] at hascii
        cases hascii
      rw [utf8Size_of_isAscii hd] at hlt
      obtain rfl : offset = 0 := by omega
      rw [utf8EncodeChar_of_isAscii hd, List.getElem?_cons_zero, Option.some.injEq] at hfound
      rw [← hfound, ascii?_toUInt8 hd, Option.some.injEq] at hascii
      exact ⟨[], rest, by rw [hascii]; rfl, rfl⟩
    · obtain ⟨later, rfl⟩ := Nat.exists_eq_add_of_le hge
      have hsize : ((String.utf8EncodeChar d).map fun byte => (byte, dmark)).length =
          d.utf8Size := by
        rw [List.length_map, String.length_utf8EncodeChar]
      rw [List.getElem?_append_right (by rw [hsize]; exact hge), hsize,
        Nat.add_sub_cancel_left] at h
      obtain ⟨front, back, rfl, rfl⟩ := ih h
      exact ⟨(d, dmark) :: front, back, rfl, rfl⟩

end Marked

/-- Continues a reading by characters byte by byte. -/
def resume : Quoting → List UInt8 → List (UInt8 × Bool)
  | .code, bytes => codeBytesFrom none bytes
  | .inside quote, bytes => codeBytesFrom (some quote.toUInt8) bytes
  | .escaped _, [] => []
  | .escaped quote, byte :: rest => (byte, false) :: codeBytesFrom (some quote.toUInt8) rest

/-- Inside a literal, a byte that is no backslash is passed over alone. -/
theorem codeBytesFrom_some_cons (quote : UInt8) {byte : UInt8}
    (h : byteHas (· == '\\') byte = false) (rest : List UInt8) :
    codeBytesFrom (some quote) (byte :: rest) =
      (byte, false) :: codeBytesFrom (if byte = quote then none else some quote) rest := by
  cases rest with
  | nil => split <;> rfl
  | cons next rest => rw [codeBytesFrom, h, if_neg Bool.false_ne_true]

/-- Inside a literal, a backslash takes the next byte with it. -/
private theorem codeBytesFrom_backslash (quote : Char) (rest : List UInt8) :
    codeBytesFrom (some quote.toUInt8) ('\\'.toUInt8 :: rest) =
      ('\\'.toUInt8, false) :: resume (.escaped quote) rest := by
  cases rest with
  | nil => rfl
  | cons next rest => rfl

/-- Bytes outside ASCII are passed over, inside a literal and outside. -/
private theorem codeBytesFrom_append {quote : Option UInt8}
    (hquote : ∀ byte ∈ quote, ascii? byte ≠ none) {front : List UInt8}
    (hfront : ∀ byte ∈ front, ascii? byte = none) (rest : List UInt8) :
    codeBytesFrom quote (front ++ rest) =
      front.map (fun byte => (byte, quote.isNone)) ++ codeBytesFrom quote rest := by
  induction front with
  | nil => rfl
  | cons byte front ih =>
    obtain ⟨hbyte, hmore⟩ := List.forall_mem_cons.mp hfront
    have hlacks (p : Char → Bool) : byteHas p byte = false := by
      rw [byteHas, hbyte, Option.any_none]
    cases quote with
    | none =>
      rw [List.cons_append, codeBytesFrom, hlacks, if_neg Bool.false_ne_true, ih hmore]
      rfl
    | some quote =>
      have hne : byte ≠ quote := fun he => hquote quote rfl (he ▸ hbyte)
      rw [List.cons_append, codeBytesFrom_some_cons quote (hlacks _), if_neg hne, ih hmore]
      rfl

/-- The quote of an open literal is a quote. -/
def Quoting.Proper : Quoting → Prop
  | .code => True
  | .inside quote | .escaped quote => isQuote quote = true

theorem isAscii_of_isQuote {c : Char} (h : isQuote c = true) : IsAscii c := by
  simp only [isQuote, Bool.or_eq_true, beq_iff_eq] at h
  obtain (rfl | rfl) | rfl := h <;> decide

/-- Reading keeps the state proper. -/
theorem Quoting.Proper.next {state : Quoting} (h : state.Proper) (c : Char) :
    (state.next c).Proper := by
  cases state with
  | code =>
    rw [Quoting.next]
    split
    · next hquote => exact hquote
    · trivial
  | inside quote =>
    rw [Quoting.next]
    split
    · exact h
    split
    · trivial
    · exact h
  | escaped quote => exact h

/-- The bytes of one character get its mark, and reading goes on in the state after it. -/
private theorem resume_append {state : Quoting} (h : state.Proper) (c : Char) (rest : List UInt8) :
    resume state (String.utf8EncodeChar c ++ rest) =
      (String.utf8EncodeChar c).map
          (fun byte => (byte, decide (state = .code ∧ state.next c = .code))) ++
        resume (state.next c) rest := by
  by_cases hc : IsAscii c
  · rw [utf8EncodeChar_of_isAscii hc, List.singleton_append, List.map_singleton,
      List.singleton_append]
    cases state with
    | code =>
      rw [resume, codeBytesFrom, byteHas_toUInt8 hc, Quoting.next]
      split <;> rfl
    | inside quote =>
      rw [resume, Quoting.next]
      by_cases hescape : c = '\\'
      · subst hescape
        exact codeBytesFrom_backslash quote rest
      have hbyte : c.toUInt8 = quote.toUInt8 ↔ c = quote := by
        constructor
        · intro he
          have hsame := congrArg ascii? he
          rw [ascii?_toUInt8 hc, ascii?_toUInt8 (isAscii_of_isQuote h)] at hsame
          exact Option.some.inj hsame
        · exact congrArg Char.toUInt8
      rw [codeBytesFrom_some_cons _
        (by rw [byteHas_toUInt8 hc, beq_eq_false_iff_ne]; exact hescape), if_neg hescape]
      simp only [hbyte]
      split <;> rfl
    | escaped quote => rfl
  · have hhigh : ∀ byte ∈ String.utf8EncodeChar c, ascii? byte = none := fun _ hm =>
      ascii?_of_mem_utf8EncodeChar hc hm
    have hquote {quote : Char} (hq : isQuote quote = true) :
        ∀ byte ∈ some quote.toUInt8, ascii? byte ≠ none := by
      intro byte hm
      rw [← Option.some.inj hm, ascii?_toUInt8 (isAscii_of_isQuote hq)]
      exact Option.some_ne_none _
    cases state with
    | code =>
      have hnext : Quoting.next .code c = .code := if_neg fun hq => hc (isAscii_of_isQuote hq)
      rw [hnext]
      exact codeBytesFrom_append (fun _ hm => absurd hm (Option.not_mem_none _)) hhigh rest
    | inside quote =>
      have hescape : c ≠ '\\' := by
        rintro rfl
        exact hc (by decide)
      have hnext : Quoting.next (.inside quote) c = .inside quote := by
        rw [Quoting.next, if_neg hescape, if_neg]
        rintro rfl
        exact hc (isAscii_of_isQuote h)
      rw [hnext]
      exact codeBytesFrom_append (hquote h) hhigh rest
    | escaped quote =>
      -- the skip ends after the first byte, and the others are passed over one by one
      obtain ⟨byte, more, hbytes⟩ : ∃ byte more, String.utf8EncodeChar c = byte :: more :=
        List.exists_cons_of_ne_nil String.utf8EncodeChar_ne_nil
      rw [hbytes] at hhigh ⊢
      exact congrArg ((byte, false) :: ·)
        (codeBytesFrom_append (hquote h) (fun _ hm => hhigh _ (List.mem_cons_of_mem _ hm)) rest)

private theorem resume_utf8 {state : Quoting} (h : state.Proper) (text : Text) :
    resume state (utf8 text) = (codeFrom state text).bytes := by
  induction text generalizing state with
  | nil => cases state <;> rfl
  | cons c text ih => rw [utf8_cons, resume_append h, ih (h.next c), codeFrom, Marked.bytes_cons]

/-- Each byte gets the mark of its character. -/
theorem codeBytes_eq (text : Text) : codeBytes text = (code text).bytes :=
  resume_utf8 (show Quoting.Proper .code from trivial) text

/-! ## The top level -/

/-- The offsets of the marked bytes at depth zero that are no brackets, counted from a position. -/
def offsetsAtDepth : Nat → Int → List (UInt8 × Bool) → List Nat
  | _, _, [] => []
  | position, depth, (byte, mark) :: rest =>
    if mark && byteHas isOpener byte then offsetsAtDepth (position + 1) (depth + 1) rest
    else if mark && byteHas isCloser byte then offsetsAtDepth (position + 1) (depth - 1) rest
    else if mark && depth == 0 then position :: offsetsAtDepth (position + 1) depth rest
    else offsetsAtDepth (position + 1) depth rest

/-- The offsets of the bytes outside every bracket pair and string literal. -/
def topLevelOffsets (text : Text) : List Nat := offsetsAtDepth 0 0 (codeBytes text)

/-- The offsets of all bytes of the marked characters, counted from a position. -/
def Marked.offsetsFrom : Nat → Marked → List Nat
  | _, [] => []
  | position, (c, mark) :: rest =>
    (if mark then List.range' position c.utf8Size else []) ++
      offsetsFrom (position + c.utf8Size) rest

theorem isAscii_of_isOpener {c : Char} (h : isOpener c = true) : IsAscii c := by
  simp only [isOpener, Bool.or_eq_true, beq_iff_eq] at h
  obtain (rfl | rfl) | rfl := h <;> decide

theorem isAscii_of_isCloser {c : Char} (h : isCloser c = true) : IsAscii c := by
  simp only [isCloser, Bool.or_eq_true, beq_iff_eq] at h
  obtain (rfl | rfl) | rfl := h <;> decide

/-- What a character is not marked with, its bytes are not marked with. -/
theorem marked_byteHas_eq_false {c : Char} {mark : Bool} {p : Char → Bool}
    (hp : ¬(mark && p c) = true) :
    ∀ byte ∈ String.utf8EncodeChar c, (mark && byteHas p byte) = false := by
  intro byte hm
  cases mark with
  | false => rfl
  | true => exact byteHas_of_mem (Bool.eq_false_iff.mpr hp) hm

/-- Bytes that are no marked brackets are reported or not, by the depth they stand at. -/
private theorem offsetsAtDepth_append (position : Nat) (depth : Int) {mark : Bool}
    {front : List UInt8} (hopener : ∀ byte ∈ front, (mark && byteHas isOpener byte) = false)
    (hcloser : ∀ byte ∈ front, (mark && byteHas isCloser byte) = false)
    (rest : List (UInt8 × Bool)) :
    offsetsAtDepth position depth (front.map (fun byte => (byte, mark)) ++ rest) =
      (if mark && depth == 0 then List.range' position front.length else []) ++
        offsetsAtDepth (position + front.length) depth rest := by
  induction front generalizing position with
  | nil => split <;> rfl
  | cons byte front ih =>
    obtain ⟨hopening, hopeners⟩ := List.forall_mem_cons.mp hopener
    obtain ⟨hclosing, hclosers⟩ := List.forall_mem_cons.mp hcloser
    have hplace : position + (byte :: front).length = position + 1 + front.length := by
      rw [List.length_cons]
      omega
    rw [List.map_cons, List.cons_append, offsetsAtDepth, hopening, hclosing,
      if_neg Bool.false_ne_true, if_neg Bool.false_ne_true,
      ih (position + 1) hopeners hclosers, hplace]
    split <;> rfl

/-- The byte reading reports the bytes of the characters at the depth. -/
private theorem offsetsAtDepth_bytes (position : Nat) (depth : Int) (marked : Marked) :
    offsetsAtDepth position depth marked.bytes = (atDepth depth marked).offsetsFrom position := by
  induction marked generalizing position depth with
  | nil => rfl
  | cons head rest ih =>
    obtain ⟨c, mark⟩ := head
    rw [Marked.bytes_cons, atDepth]
    split
    · next hopener =>
      rw [Bool.and_eq_true] at hopener
      have hc := isAscii_of_isOpener hopener.2
      rw [utf8EncodeChar_of_isAscii hc, List.map_singleton, List.singleton_append, offsetsAtDepth,
        byteHas_toUInt8 hc, hopener.1, hopener.2, Marked.offsetsFrom, utf8Size_of_isAscii hc, ← ih]
      rfl
    next hopener =>
    split
    · next hcloser =>
      rw [Bool.and_eq_true] at hcloser
      have hc := isAscii_of_isCloser hcloser.2
      rw [utf8EncodeChar_of_isAscii hc, List.map_singleton, List.singleton_append, offsetsAtDepth,
        byteHas_toUInt8 hc, byteHas_toUInt8 hc, if_neg hopener, hcloser.1, hcloser.2,
        Marked.offsetsFrom, utf8Size_of_isAscii hc, ← ih]
      rfl
    · next hcloser =>
      rw [offsetsAtDepth_append _ _ (marked_byteHas_eq_false hopener)
          (marked_byteHas_eq_false hcloser), String.length_utf8EncodeChar, Marked.offsetsFrom, ih]

/-- The byte reading reports the bytes of the characters at the top level. -/
theorem topLevelOffsets_eq (text : Text) :
    topLevelOffsets text = (topLevel text).offsetsFrom 0 := by
  rw [topLevelOffsets, codeBytes_eq, offsetsAtDepth_bytes]
  rfl

example : topLevelOffsets ['é', '?', '"', '\\', 'é'] = [0, 1, 2] := by decide

namespace Marked

theorem offsetsFrom_append (position : Nat) (left right : Marked) :
    offsetsFrom position (left ++ right) =
      offsetsFrom position left ++ offsetsFrom (position + left.text.byteSize) right := by
  induction left generalizing position with
  | nil => rfl
  | cons head left ih =>
    obtain ⟨c, mark⟩ := head
    rw [List.cons_append, offsetsFrom, offsetsFrom, ih, text_cons, byteSize_cons, List.append_assoc,
      Nat.add_assoc]

/-- The offsets lie in the text. -/
theorem bounds_of_mem_offsetsFrom {position offset : Nat} {marked : Marked}
    (h : offset ∈ offsetsFrom position marked) :
    position ≤ offset ∧ offset < position + marked.text.byteSize := by
  induction marked generalizing position with
  | nil => cases h
  | cons head rest ih =>
    obtain ⟨c, mark⟩ := head
    rw [text_cons, byteSize_cons]
    rw [offsetsFrom, List.mem_append] at h
    rcases h with h | h
    · split at h
      · have hrange := List.mem_range'_1.mp h
        omega
      · cases h
    · have hrest := ih h
      omega

end Marked

/-- A target is found at the offsets of a character only if it is the character and has its mark. -/
theorem charAt?_ne_of_mem {target c : Char} {mark : Bool} (h : ¬(mark && c == target) = true)
    {before rest : Text} {offset : Nat}
    (hm : offset ∈ if mark then List.range' before.byteSize c.utf8Size else []) :
    charAt? offset (before ++ c :: rest) ≠ some target := by
  intro hfound
  cases mark with
  | false => cases hm
  | true =>
    obtain ⟨rfl, -⟩ := eq_of_charAt?_eq_some hm hfound
    exact h (beq_self_eq_true c)

/-- The first offset at which a target is found is that of its first mark. -/
theorem find?_offsetsFrom {target : Char} (htarget : IsAscii target) {text before : Text}
    {marked : Marked} (htext : text = before ++ marked.text) :
    (marked.offsetsFrom before.byteSize).find? (fun offset => charAt? offset text == some target) =
      (Marked.cut? target marked).map fun cut => before.byteSize + cut.1.byteSize := by
  induction marked generalizing before with
  | nil => rfl
  | cons head rest ih =>
    obtain ⟨c, mark⟩ := head
    rw [Marked.text_cons] at htext
    have hrest :=
      ih (show text = (before ++ [c]) ++ Marked.text rest by rw [htext, List.append_cons])
    rw [Marked.offsetsFrom, Marked.cut?]
    by_cases hfound : (mark && c == target) = true
    · rw [if_pos hfound]
      rw [Bool.and_eq_true, beq_iff_eq] at hfound
      obtain ⟨rfl, rfl⟩ := hfound
      rw [if_pos rfl, utf8Size_of_isAscii htarget, List.range'_one, List.singleton_append,
        List.find?_cons_of_pos]
      · rfl
      · rw [htext, charAt?_append_cons htarget, beq_self_eq_true]
    · have hskip : (if mark then List.range' before.byteSize c.utf8Size else []).find?
          (fun offset => charAt? offset text == some target) = none := by
        rw [List.find?_eq_none]
        intro offset hm
        rw [htext, beq_iff_eq]
        exact charAt?_ne_of_mem hfound hm
      rw [byteSize_append] at hrest
      rw [if_neg hfound, List.find?_append, hskip, Option.none_or]
      refine hrest.trans ?_
      rw [Option.map_map]
      refine congrArg (Option.map · _) (funext fun cut => ?_)
      simp only [Function.comp_apply, byteSize_cons, byteSize_nil, Nat.add_zero, Nat.add_assoc]

/-- The first offset at the top level at which a target is found is that of its first mark. -/
theorem find?_topLevelOffsets {target : Char} (htarget : IsAscii target) (text : Text) :
    (topLevelOffsets text).find? (fun offset => charAt? offset text == some target) =
      (Marked.cut? target (topLevel text)).map fun cut => cut.1.byteSize := by
  have htext : text = [] ++ (topLevel text).text := (text_topLevel text).symm
  have hfind := find?_offsetsFrom htarget htext
  simp only [byteSize_nil, Nat.zero_add] at hfind
  rw [topLevelOffsets_eq, hfind]

/-! ## Parentheses -/

/-- The pairs of matching round parentheses among the marked bytes, by offset, in the order of their
closers. -/
def parenOffsetsFrom : Nat → List Nat → List (UInt8 × Bool) → List (Nat × Nat)
  | _, _, [] => []
  | position, waiting, (byte, mark) :: rest =>
    if mark && byteHas (· == '(') byte
      then parenOffsetsFrom (position + 1) (position :: waiting) rest
    else if mark && byteHas (· == ')') byte then
      match waiting with
      | [] => parenOffsetsFrom (position + 1) [] rest
      | opener :: outer => (opener, position) :: parenOffsetsFrom (position + 1) outer rest
    else parenOffsetsFrom (position + 1) waiting rest

/-- The pairs of matching round parentheses outside string literals, by offset. -/
def parenOffsets (text : Text) : List (Nat × Nat) := parenOffsetsFrom 0 [] (codeBytes text)

/-- The offset of the character with the given number. -/
def offsetOf (text : Text) (position : Nat) : Nat := byteSize (text.take position)

theorem offsetOf_length (before rest : Text) :
    offsetOf (before ++ rest) before.length = before.byteSize := by
  rw [offsetOf, List.take_left]

private theorem parenOffsetsFrom_append (position : Nat) (waiting : List Nat) {mark : Bool}
    {front : List UInt8} (hopener : ∀ byte ∈ front, (mark && byteHas (· == '(') byte) = false)
    (hcloser : ∀ byte ∈ front, (mark && byteHas (· == ')') byte) = false)
    (rest : List (UInt8 × Bool)) :
    parenOffsetsFrom position waiting (front.map (fun byte => (byte, mark)) ++ rest) =
      parenOffsetsFrom (position + front.length) waiting rest := by
  induction front generalizing position with
  | nil => rfl
  | cons byte front ih =>
    obtain ⟨hopening, hopeners⟩ := List.forall_mem_cons.mp hopener
    obtain ⟨hclosing, hclosers⟩ := List.forall_mem_cons.mp hcloser
    have hplace : position + (byte :: front).length = position + 1 + front.length := by
      rw [List.length_cons]
      omega
    rw [List.map_cons, List.cons_append, parenOffsetsFrom.eq_def]
    dsimp only
    rw [hopening, hclosing, if_neg Bool.false_ne_true, if_neg Bool.false_ne_true,
      ih (position + 1) hopeners hclosers, hplace]

/-- The byte reading pairs the same parentheses. Its positions are the offsets of the characters. -/
private theorem parenOffsetsFrom_bytes {text before : Text} {marked : Marked}
    (htext : text = before ++ marked.text) (waiting : List Nat) :
    parenOffsetsFrom before.byteSize (waiting.map (offsetOf text)) marked.bytes =
      (parensFrom before.length waiting marked).map fun pair =>
        (offsetOf text pair.1, offsetOf text pair.2) := by
  induction marked generalizing before waiting with
  | nil => rfl
  | cons head rest ih =>
    obtain ⟨c, mark⟩ := head
    rw [Marked.text_cons] at htext
    have hplace : offsetOf text before.length = before.byteSize := by rw [htext, offsetOf_length]
    have hnext (waiting : List Nat) :
        parenOffsetsFrom (before.byteSize + c.utf8Size) (waiting.map (offsetOf text))
            (Marked.bytes rest) =
          (parensFrom (before.length + 1) waiting rest).map
            fun pair => (offsetOf text pair.1, offsetOf text pair.2) := by
      have hmore : text = before ++ [c] ++ Marked.text rest := by
        rw [htext, List.append_assoc, List.singleton_append]
      have hrest := ih hmore waiting
      rwa [byteSize_append, List.length_append] at hrest
    rw [Marked.bytes_cons, parensFrom.eq_def]
    dsimp only
    split
    · next hopener =>
      rw [Bool.and_eq_true, beq_iff_eq] at hopener
      obtain ⟨rfl, rfl⟩ := hopener
      rw [← hnext, List.map_cons, hplace]
      rfl
    next hopener =>
    split
    · next hcloser =>
      rw [Bool.and_eq_true, beq_iff_eq] at hcloser
      obtain ⟨rfl, rfl⟩ := hcloser
      cases waiting with
      | nil => exact hnext []
      | cons last outer =>
        dsimp only
        rw [List.map_cons, List.map_cons, ← hnext, hplace]
        rfl
    · next hcloser =>
      rw [parenOffsetsFrom_append _ _ (marked_byteHas_eq_false hopener)
          (marked_byteHas_eq_false hcloser), String.length_utf8EncodeChar, hnext]

/-- The byte reading pairs the same parentheses. -/
theorem parenOffsets_eq (text : Text) :
    parenOffsets text = (matchingParens text).map fun pair =>
      (offsetOf text pair.1, offsetOf text pair.2) := by
  have htext : text = [] ++ (code text).text := (text_codeFrom .code text).symm
  rw [parenOffsets, codeBytes_eq]
  exact parenOffsetsFrom_bytes htext []

end ComponentFile.Expression
