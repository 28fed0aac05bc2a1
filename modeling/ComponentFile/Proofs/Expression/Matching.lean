import ComponentFile.Proofs.Expression.Partners
import ComponentFile.Proofs.Expression.SlicedForms
import ComponentFile.Proofs.Expression.Wrapping

/-!
# Matching parentheses

A character is outside of string literals if every literal that starts before it ends before it. The
literals are told by a grammar of their own, which does not mention the reading. The reading by
bytes sees exactly the round parentheses outside of literals, at their byte offsets, and pairs the
partners among them and nothing else: no parenthesis is in two pairs, and no two pairs cross, also
in a text with stray closers, unclosed openers and a literal left open.
-/

namespace ComponentFile.Expression

open Text

/-! ## Outside of string literals -/

/-- Every string literal of the text, read from its start, is closed. -/
inductive LiteralsClosed : Text → Prop
  | nil : LiteralsClosed []
  | char {c : Char} {rest : Text} (hquote : isQuote c = false) (hrest : LiteralsClosed rest) :
      LiteralsClosed (c :: rest)
  | string {quote : Char} {content rest : Text} (hquote : isQuote quote = true)
      (hcontent : StringContent quote content) (hrest : LiteralsClosed rest) :
      LiteralsClosed (quoted quote content ++ rest)

/-- The character stands at the byte offset, and every string literal that starts before it ends
before it. -/
def StandsInCode (c : Char) (text : Text) (offset : Nat) : Prop :=
  ∃ before after, text = before ++ c :: after ∧ before.byteSize = offset ∧ LiteralsClosed before

/-- The state that a text leads to. -/
def Quoting.after (state : Quoting) (text : Text) : Quoting := text.foldl Quoting.next state

private theorem codeFrom_append (state : Quoting) (left right : Text) :
    codeFrom state (left ++ right) = codeFrom state left ++ codeFrom (state.after left) right := by
  induction left generalizing state with
  | nil => rfl
  | cons c left ih => exact congrArg _ (ih _)

theorem StringContent.after_inside {quote : Char} {content : Text}
    (h : StringContent quote content) :
    Quoting.after (.inside quote) content = .inside quote := by
  induction h with
  | nil => rfl
  | @char c rest hne hescape _ ih =>
    have hnext : Quoting.next (.inside quote) c = .inside quote := by
      rw [Quoting.next, if_neg hescape, if_neg hne]
    rwa [Quoting.after, List.foldl_cons, hnext]
  | escape c _ ih => exact ih

/-- What a text has to be for a reading that starts in the state to end outside of string
literals. -/
def Quoting.Completes : Quoting → Text → Prop
  | .code, text => LiteralsClosed text
  | .inside quote, text =>
    ∃ content rest, text = content ++ quote :: rest ∧ StringContent quote content ∧
      LiteralsClosed rest
  | .escaped quote, text =>
    ∃ c content rest, text = c :: (content ++ quote :: rest) ∧ StringContent quote content ∧
      LiteralsClosed rest

/-- One character more in front is one step less. -/
theorem Quoting.Completes.cons {state : Quoting} {c : Char} {text : Text}
    (h : (state.next c).Completes text) :
    state.Completes (c :: text) := by
  cases state with
  | code =>
    rw [Quoting.next] at h
    split at h
    · next hquote =>
      obtain ⟨content, rest, rfl, hcontent, hrest⟩ := h
      have hstring := LiteralsClosed.string hquote hcontent hrest
      rwa [quoted, List.cons_append, List.append_assoc] at hstring
    · next hquote => exact .char (Bool.eq_false_iff.mpr hquote) h
  | inside quote =>
    rw [Quoting.next] at h
    split at h
    · next hescape =>
      obtain ⟨d, content, rest, rfl, hcontent, hrest⟩ := h
      exact ⟨c :: d :: content, rest, rfl, hescape ▸ .escape d hcontent, hrest⟩
    next hescape =>
    split at h
    · next hquote => exact ⟨[], text, by rw [hquote, List.nil_append], .nil, h⟩
    · next hquote =>
      obtain ⟨content, rest, rfl, hcontent, hrest⟩ := h
      exact ⟨c :: content, rest, rfl, .char hquote hescape hcontent, hrest⟩
  | escaped quote =>
    obtain ⟨content, rest, rfl, hcontent, hrest⟩ := h
    exact ⟨c, content, rest, rfl, hcontent, hrest⟩

theorem Quoting.completes_of_after {state : Quoting} {text : Text} (h : state.after text = .code) :
    state.Completes text := by
  induction text generalizing state with
  | nil =>
    obtain rfl : state = .code := h
    exact .nil
  | cons c text ih => exact (ih h).cons

/-- The reading is outside of string literals exactly behind texts with closed literals. -/
theorem literalsClosed_iff {text : Text} :
    LiteralsClosed text ↔ Quoting.after .code text = .code := by
  constructor
  · intro h
    induction h with
    | nil => rfl
    | @char c rest hquote _ ih =>
      have hnext : Quoting.next .code c = .code := by
        rw [Quoting.next, hquote, if_neg Bool.false_ne_true]
      rwa [Quoting.after, List.foldl_cons, hnext]
    | @string quote content rest hquote hcontent _ ih =>
      have hopen : Quoting.next .code quote = .inside quote := by rw [Quoting.next, if_pos hquote]
      have hclose : Quoting.next (.inside quote) quote = .code := by
        have hescape : quote ≠ '\\' := by
          rintro rfl
          cases hquote
        rw [Quoting.next, if_neg hescape, if_pos rfl]
      have hinside := hcontent.after_inside
      rw [Quoting.after] at hinside ih ⊢
      rw [quoted, List.cons_append, List.foldl_cons, hopen, List.append_assoc, List.foldl_append,
        hinside, List.singleton_append, List.foldl_cons, hclose, ih]
  · exact Quoting.completes_of_after

instance (text : Text) : Decidable (LiteralsClosed text) :=
  decidable_of_iff _ literalsClosed_iff.symm

instance (c : Char) (text : Text) (offset : Nat) : Decidable (StandsInCode c text offset) :=
  decidable_of_iff
    (∃ length, length < text.length ∧ text[length]? = some c ∧ offsetOf text length = offset ∧
      LiteralsClosed (text.take length)) <| by
    constructor
    · rintro ⟨_, -, hget, hoffset, hclosed⟩
      obtain ⟨before, after, rfl, rfl⟩ := exists_of_getElem?_eq_some hget
      rw [List.take_left] at hclosed
      exact ⟨before, after, rfl, (offsetOf_length before _).symm.trans hoffset, hclosed⟩
    · rintro ⟨before, after, rfl, hoffset, hclosed⟩
      refine ⟨before.length, ?_, ?_, (offsetOf_length before _).trans hoffset, ?_⟩
      · rw [List.length_append, List.length_cons]
        omega
      · rw [List.getElem?_append_right (Nat.le_refl _), Nat.sub_self, List.getElem?_cons_zero]
      · rwa [List.take_left]

/-- The mark of a character that is no quote tells whether the literals before it are closed. -/
private theorem code_append_cons {c : Char} (hquote : isQuote c = false) (before after : Text) :
    code (before ++ c :: after) =
      codeFrom .code before ++
        (c, decide (LiteralsClosed before)) ::
          codeFrom (Quoting.after .code (before ++ [c])) after := by
  have hmark : decide (Quoting.after .code before = .code ∧
        (Quoting.after .code before).next c = .code) =
      decide (LiteralsClosed before) := by
    refine decide_eq_decide.mpr ⟨fun h => literalsClosed_iff.mpr h.1, fun h => ?_⟩
    rw [literalsClosed_iff.mp h, Quoting.next, hquote, if_neg Bool.false_ne_true]
    exact ⟨rfl, rfl⟩
  have hnext : Quoting.after .code (before ++ [c]) = (Quoting.after .code before).next c :=
    List.foldl_concat ..
  rw [code, codeFrom_append, codeFrom, hmark, hnext]

/-- The bytes of code are the characters in code. -/
theorem standsInCode_iff {c : Char} (hc : IsAscii c) (hquote : isQuote c = false) {text : Text}
    {offset : Nat} :
    StandsInCode c text offset ↔
      ((codeBytes text)[offset]?.any fun head => head.2 && byteHas (· == c) head.1) = true := by
  have hsize (before : Text) : (codeFrom .code before).bytes.length = before.byteSize := by
    rw [Marked.length_bytes, text_codeFrom]
  rw [codeBytes_eq]
  constructor
  · rintro ⟨before, after, rfl, rfl, hclosed⟩
    rw [code_append_cons hquote, decide_eq_true hclosed, Marked.bytes_append, Marked.bytes_cons,
      utf8EncodeChar_of_isAscii hc, List.getElem?_append_right (by rw [hsize]), hsize, Nat.sub_self]
    change (true && byteHas (· == c) c.toUInt8) = true
    rw [byteHas_toUInt8 hc, Bool.true_and, beq_self_eq_true]
  · intro h
    obtain ⟨⟨byte, mark⟩, hbyte, hhead⟩ := Option.any_eq_true _ _ |>.mp h
    rw [Bool.and_eq_true, byteHas, Option.any_eq_true] at hhead
    obtain ⟨rfl, d, hascii, hd⟩ := hhead
    obtain rfl : d = c := beq_iff_eq.mp hd
    obtain ⟨front, back, hcode, rfl⟩ := Marked.exists_of_getElem?_bytes hbyte hascii
    have htext : text = front.text ++ d :: Marked.text back := by
      rw [← text_codeFrom .code text]
      exact (congrArg Marked.text hcode).trans (Marked.text_append _ _)
    refine ⟨front.text, Marked.text back, htext, rfl, ?_⟩
    rw [htext, code_append_cons hquote] at hcode
    have hlength : (codeFrom .code front.text).length = front.length := by
      rw [← Marked.length_text, text_codeFrom, Marked.length_text]
    have hmark := (List.cons.inj (List.append_inj hcode hlength).2).1
    exact of_decide_eq_true (Prod.mk.inj hmark).2

/-! ## Pairing -/

/-- The round parenthesis that stands at the byte offset, outside of string literals. -/
def parenAt? (text : Text) (offset : Nat) : Option Paren :=
  if StandsInCode '(' text offset then some .opening else if StandsInCode ')' text offset
    then some .closing else none

/-- The list pairs the round parentheses of the text outside of string literals, by byte offsets. -/
structure IsMatching (text : Text) (pairs : List (Nat × Nat)) : Prop where
  /-- The pairs are the partners. -/
  mem_iff : ∀ opener closer, (opener, closer) ∈ pairs ↔ Partners (parenAt? text) opener closer
  /-- They are listed by their closers. -/
  sorted : pairs.Pairwise fun left right => left.2 < right.2
  /-- No offset is in two pairs. -/
  nodup : (pairs.flatMap fun pair => [pair.1, pair.2]).Nodup
  /-- A pair that starts inside of another one ends inside of it. -/
  nested : ∀ left ∈ pairs, ∀ right ∈ pairs, left.1 < right.1 → right.1 < left.2 → right.2 < left.2

/-- The parenthesis that a marked byte is. -/
def parenOf : UInt8 × Bool → Option Paren
  | (byte, mark) =>
    if mark && byteHas (· == '(') byte then some .opening
    else if mark && byteHas (· == ')') byte then some .closing
    else none

/-- The byte reading sees the parentheses outside of string literals. -/
private theorem parenAt?_eq (text : Text) (offset : Nat) :
    parenAt? text offset = (codeBytes text)[offset]? >>= parenOf := by
  have hopener : IsAscii '(' ∧ isQuote '(' = false := by decide
  have hcloser : IsAscii ')' ∧ isQuote ')' = false := by decide
  simp only [parenAt?, standsInCode_iff hopener.1 hopener.2, standsInCode_iff hcloser.1 hcloser.2]
  cases (codeBytes text)[offset]? with
  | none => rfl
  | some head => rfl

section

variable {paren : Nat → Option Paren}

theorem parenOffsetsFrom_cons (position : Nat) (waiting : List Nat) (head : UInt8 × Bool)
    (rest : List (UInt8 × Bool)) :
    parenOffsetsFrom position waiting (head :: rest) =
      match parenOf head, waiting with
      | none, _ => parenOffsetsFrom (position + 1) waiting rest
      | some .opening, _ => parenOffsetsFrom (position + 1) (position :: waiting) rest
      | some .closing, [] => parenOffsetsFrom (position + 1) [] rest
      | some .closing, opener :: outer =>
        (opener, position) :: parenOffsetsFrom (position + 1) outer rest := by
  obtain ⟨byte, mark⟩ := head
  rw [parenOffsetsFrom.eq_def, parenOf]
  dsimp only
  split
  · rfl
  split
  · cases waiting <;> rfl
  · rfl

/-- With the waiting openers on the stack, the reading finds the partners that close from here
on. -/
theorem mem_parenOffsetsFrom_iff {position : Nat} {waiting : List Nat}
    {marked : List (UInt8 × Bool)} (hread : ∀ i, paren (position + i) = marked[i]? >>= parenOf)
    (hwaiting : Unclosed paren position waiting) {opener closer : Nat} :
    (opener, closer) ∈ parenOffsetsFrom position waiting marked ↔ position ≤ closer ∧
      Partners paren opener closer := by
  induction marked generalizing position waiting with
  | nil =>
    refine iff_of_false List.not_mem_nil fun ⟨hle, hpartners⟩ => ?_
    obtain ⟨i, rfl⟩ := Nat.exists_eq_add_of_le hle
    have hnone := hread i
    rw [hpartners.closes] at hnone
    cases hnone
  | cons head rest ih =>
    have hplace : paren position = parenOf head := hread 0
    have hrest (i : Nat) : paren (position + 1 + i) = rest[i]? >>= parenOf := by
      rw [Nat.add_assoc, Nat.add_comm 1]
      exact hread (i + 1)
    -- a place that closes nothing can be left out
    have hlater (hnone : ¬Partners paren opener position) :
        position + 1 ≤ closer ∧ Partners paren opener closer ↔ position ≤ closer ∧
          Partners paren opener closer := by
      refine ⟨fun h => ⟨Nat.le_of_succ_le h.1, h.2⟩, fun ⟨hle, hpartners⟩ => ⟨?_, hpartners⟩⟩
      rcases Nat.eq_or_lt_of_le hle with rfl | hlt
      · exact absurd hpartners hnone
      · exact hlt
    rw [parenOffsetsFrom_cons]
    cases hhead : parenOf head with
    | none =>
      rw [hhead] at hplace
      rw [← hlater fun h => by rw [h.closes] at hplace; cases hplace]
      exact ih hrest (hwaiting.pass hplace)
    | some found =>
      rw [hhead] at hplace
      cases found with
      | opening =>
        rw [← hlater fun h => by rw [h.closes] at hplace; cases hplace]
        exact ih hrest (hwaiting.push hplace)
      | closing =>
        cases waiting with
        | nil =>
          rw [← hlater fun h => by cases hwaiting.head?_eq h.lt h.opens h.balanced]
          exact ih hrest (hwaiting.stray hplace)
        | cons last outer =>
          obtain ⟨hpartners, houter⟩ := hwaiting.pop hplace
          dsimp only
          rw [List.mem_cons, ih hrest houter, Prod.mk.injEq]
          constructor
          · rintro (⟨rfl, rfl⟩ | ⟨hle, h⟩)
            · exact ⟨Nat.le_refl _, hpartners⟩
            · exact ⟨Nat.le_of_succ_le hle, h⟩
          · rintro ⟨hle, h⟩
            rcases Nat.eq_or_lt_of_le hle with rfl | hlt
            · have htop := hwaiting.head?_eq h.lt h.opens h.balanced
              exact .inl ⟨(Option.some.inj htop).symm, rfl⟩
            · exact .inr ⟨hlt, h⟩

private theorem pairwise_parenOffsetsFrom (position : Nat) (waiting : List Nat)
    (marked : List (UInt8 × Bool)) :
    (parenOffsetsFrom position waiting marked).Pairwise (fun left right => left.2 < right.2) ∧
      ∀ pair ∈ parenOffsetsFrom position waiting marked, position ≤ pair.2 := by
  induction marked generalizing position waiting with
  | nil => exact ⟨List.Pairwise.nil, fun _ hm => absurd hm List.not_mem_nil⟩
  | cons head rest ih =>
    have hlater (waiting : List Nat) := ih (position + 1) waiting
    rw [parenOffsetsFrom_cons]
    split
    · exact (hlater _).imp_right fun h pair hm => Nat.le_of_succ_le (h pair hm)
    · exact (hlater _).imp_right fun h pair hm => Nat.le_of_succ_le (h pair hm)
    · exact (hlater _).imp_right fun h pair hm => Nat.le_of_succ_le (h pair hm)
    · next opener outer _ =>
      obtain ⟨hsorted, hbound⟩ := hlater outer
      refine ⟨List.pairwise_cons.mpr ⟨hbound, hsorted⟩,
        List.forall_mem_cons.mpr ⟨Nat.le_refl _, ?_⟩⟩
      exact fun pair hm => Nat.le_of_succ_le (hbound pair hm)

/-- No place is in two pairs of partners. -/
theorem Partners.disjoint {opener closer opener' closer' : Nat} (h : Partners paren opener closer)
    (h' : Partners paren opener' closer') (hlt : closer < closer') :
    List.Disjoint [opener, closer] [opener', closer'] := by
  have hdiffer {place place' : Nat} (hopens : paren place = some .opening)
      (hcloses : paren place' = some .closing) :
      place ≠ place' := by
    rintro rfl
    rw [hopens] at hcloses
    cases hcloses
  have hopeners : opener ≠ opener' := by
    rintro rfl
    exact absurd (h.closer_le h' (Nat.le_refl _) h.lt) (Nat.not_le.mpr hlt)
  have hclosers : closer ≠ closer' := Nat.ne_of_lt hlt
  have hfirst := hdiffer h.opens h'.closes
  have hsecond := (hdiffer h'.opens h.closes).symm
  simp only [List.disjoint_cons_left, List.disjoint_nil_left, List.mem_cons, List.not_mem_nil,
    or_false, not_or, and_true]
  exact ⟨⟨hopeners, hfirst⟩, hsecond, hclosers⟩

end

/-- The byte reading pairs the round parentheses outside of string literals. -/
theorem isMatching_parenOffsets (text : Text) : IsMatching text (parenOffsets text) := by
  have hempty : Unclosed (parenAt? text) 0 [] := by
    refine .bottom fun start hstart => ?_
    obtain rfl := Nat.le_zero.mp hstart
    rw [parensBetween_self]
    exact Nat.le_refl _
  have hmem (opener closer : Nat) :
      (opener, closer) ∈ parenOffsets text ↔ Partners (parenAt? text) opener closer := by
    have hread (i : Nat) : parenAt? text (0 + i) = (codeBytes text)[i]? >>= parenOf := by
      rw [Nat.zero_add, parenAt?_eq]
    exact (mem_parenOffsetsFrom_iff hread hempty).trans (and_iff_right (Nat.zero_le closer))
  have hsorted : (parenOffsets text).Pairwise fun left right => left.2 < right.2 :=
    (pairwise_parenOffsetsFrom 0 [] (codeBytes text)).1
  refine ⟨hmem, hsorted, ?_, ?_⟩
  · refine List.nodup_flatMap.mpr ⟨fun pair hm => ?_, ?_⟩
    · have hlt := ((hmem pair.1 pair.2).mp hm).lt
      simpa only [List.nodup_cons, List.mem_singleton, List.not_mem_nil, not_false_eq_true,
        List.nodup_nil, and_true]
        using Nat.ne_of_lt hlt
    · refine hsorted.imp_of_mem fun {left right} hleft hright hlt => ?_
      exact ((hmem left.1 left.2).mp hleft).disjoint ((hmem right.1 right.2).mp hright) hlt
  · intro left hleft right hright hopener hinside
    have hpartners := (hmem left.1 left.2).mp hleft
    have hpartners' := (hmem right.1 right.2).mp hright
    exact hpartners.closer_lt hpartners' hopener hinside

/-- The pairs of parentheses are the matching of the text, by characters as well as by bytes: both
readings find the same pairs. -/
theorem isMatching_matchingParens (text : Text) :
    IsMatching text ((matchingParens text).map fun pair =>
        (offsetOf text pair.1, offsetOf text pair.2)) ∧
      parenOffsets text = (matchingParens text).map fun pair =>
        (offsetOf text pair.1, offsetOf text pair.2) := by
  have hbytes := parenOffsets_eq text
  exact ⟨hbytes ▸ isMatching_parenOffsets text, hbytes⟩

-- a stray closer, an escaped quote and a closer in a literal, and a character of two bytes
example : parenOffsets [')', '(', '"', '\\', '"', ')', '"', 'é', ')', '('] = [(1, 9)] := by decide

end ComponentFile.Expression
