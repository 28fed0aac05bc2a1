import ComponentFile.Proofs.Expression.Offsets
import Mathlib.Data.List.Find

/-!
# Cutting expression text by byte offsets

The forms of an expression can be told from the byte reading alone, with every part taken out of the
text as a slice between two byte offsets. Such a slice does not exist when an offset is beyond the
end, when the offsets are in the wrong order or when one of them lies inside of a character. Here
each cut is written in this way, failing at the first slice that does not exist, and choices and
operations are proved to be cut as they are cut by characters. So these cuts never fail.
-/

namespace ComponentFile.Expression

open Text

/-! ## Slices -/

/-- The offsets of a slice that does not exist. -/
structure BadSlice where
  start : Nat
  stop : Nat
  deriving DecidableEq, Repr

/-- The slice of a text between two byte offsets. -/
def slice (start stop : Nat) (text : Text) : Except BadSlice Text :=
  match slice? start stop text with
  | some piece => .ok piece
  | none => .error ⟨start, stop⟩

/-- A slice exists between two character boundaries of the text that are in order, and nowhere
else. -/
theorem slice_eq_ok_iff {start stop : Nat} {text piece : Text} :
    slice start stop text = .ok piece ↔
      ∃ before after, text = before ++ piece ++ after ∧ start = before.byteSize ∧
        stop = before.byteSize + piece.byteSize := by
  rw [← slice?_eq_some_iff, slice]
  cases slice? start stop text with
  | none => exact iff_of_false (fun h => nomatch h) (fun h => nomatch h)
  | some found =>
    exact ⟨fun h => congrArg some (Except.ok.inj h),
      fun h => congrArg Except.ok (Option.some.inj h)⟩

theorem slice_front (before rest : Text) : slice 0 before.byteSize (before ++ rest) = .ok before :=
  slice_eq_ok_iff.mpr ⟨[], rest, rfl, rfl, (Nat.zero_add _).symm⟩

theorem slice_back (before rest : Text) {start : Nat} (hstart : start = before.byteSize) :
    slice start (before ++ rest).byteSize (before ++ rest) = .ok rest :=
  slice_eq_ok_iff.mpr ⟨before, [], (List.append_nil _).symm, hstart, byteSize_append before rest⟩

/-! ## The cuts -/

namespace Sliced

/-- Cuts a choice at the first `?` and the first `:` after it. -/
def conditional (text : Text) : Except BadSlice (Option (Text × Text × Text)) :=
  let offsets := topLevelOffsets text
  match offsets.find? fun offset => charAt? offset text == some '?' with
  | none => pure none
  | some question =>
    match offsets.find? fun offset => question < offset && charAt? offset text == some ':' with
    | none => pure none
    | some colon => do
      let condition ← slice 0 question text
      let consequent ← slice (question + 1) colon text
      let alternate ← slice (colon + 1) text.byteSize text
      return some (condition.trim, consequent.trim, alternate.trim)

/-- The operator of the group whose bytes stand at the offset. -/
def operatorAt (group : List BinaryOperator) (offset : Nat) (text : Text) :
    Except BadSlice (Option BinaryOperator) :=
  group.findSomeM? fun op =>
    if utf8 op.symbol <+: (utf8 text).drop offset then do
      let before ← slice 0 offset text
      return if op.standsAlone before.reverse (charAt? (offset + op.symbol.byteSize) text)
        then some op else none
    else pure none

/-- Cuts at an operator of the group that stands at the offset and has an operand on either side. -/
def binaryAt (group : List BinaryOperator) (text : Text) (offset : Nat) :
    Except BadSlice (Option (BinaryOperator × Text × Text)) := do
  match ← operatorAt group offset text with
  | none => return none
  | some op =>
    let left ← slice 0 offset text
    let right ← slice (offset + op.symbol.byteSize) text.byteSize text
    return if left.isBlankText || right.isBlankText then none else some (op, left.trim, right.trim)

/-- Cuts an infix operation at the first operator of the loosest group present. -/
def binary (text : Text) : Except BadSlice (Option (BinaryOperator × Text × Text)) :=
  BinaryOperator.groups.findSomeM? fun group => (topLevelOffsets text).findSomeM?
    (binaryAt group text)

/-- Cuts a prefix operator off. -/
def unary (text : Text) : Except BadSlice (Option (UnaryOperator × Text)) :=
  if charAt? 0 text = some '!' then do
    let operand ← slice 1 text.byteSize text
    return some (.not, operand)
  else if charAt? 0 text = some '-' then do
    let operand ← slice 1 text.byteSize text
    return if operand.head?.any fun c => !c.isDigit then some (.negate, operand) else none
  else pure none

/-- The inside of a text that one pair of round parentheses wraps. -/
def group (text : Text) : Except BadSlice (Option Text) :=
  let last := text.byteSize - 1
  if charAt? 0 text = some '(' ∧ charAt? last text = some ')' then
    match (parenOffsets text).find? fun pair => pair.1 == 0 with
    | none => pure none
    | some (_, closer) =>
      if closer = last then do
        let inner ← slice 1 closer text
        return some inner
      else pure none
  else pure none

/-- Cuts the text from `start` on at those of the offsets where a comma stands. -/
def argumentsFrom (text : Text) : Nat → List Nat → Except BadSlice (List Text)
  | start, [] => do
    let tail ← slice start text.byteSize text
    return if tail.isBlankText then [] else [tail.trim]
  | start, offset :: offsets =>
    if charAt? offset text = some ',' then do
      let argument ← slice start offset text
      let arguments ← argumentsFrom text (offset + 1) offsets
      return argument.trim :: arguments
    else argumentsFrom text start offsets

/-- Cuts an argument list at its commas. -/
def arguments (text : Text) : Except BadSlice (List Text) :=
  if text.isBlankText then pure [] else argumentsFrom text 0 (topLevelOffsets text)

/-- Cuts a call at the parenthesis that its last byte closes. -/
def call (text : Text) : Except BadSlice (Option (Text × List Text)) :=
  let last := text.byteSize - 1
  if charAt? last text = some ')' then
    match (parenOffsets text).find? fun pair => pair.2 == last with
    | none => pure none
    | some (opener, _) => do
      let callee ← slice 0 opener text
      if callee.isBlankText then return none
      let inner ← slice (opener + 1) last text
      let arguments ← arguments inner
      return some (callee.trim, arguments)
  else pure none

/-- Cuts a property off at the last `.` of a text without round parentheses. -/
def property (text : Text) : Except BadSlice (Option (Text × Text)) :=
  if '(' ∈ text then pure none
  else
    match (List.range text.byteSize).reverse.find? fun offset =>
      charAt? offset text == some '.' with
    | none => pure none
    | some point => do
      let object ← slice 0 point text
      let name ← slice (point + 1) text.byteSize text
      return if object.isBlankText || !isName name.trim then none else some (object.trim, name.trim)

end Sliced

/-! ## Choices -/

/-- A cut is made at a marked target. -/
theorem Marked.exists_of_cut?_eq_some {target : Char} {marked after : Marked} {before : Text}
    (h : cut? target marked = some (before, after)) :
    ∃ left, marked = left ++ (target, true) :: after ∧ left.text = before := by
  induction marked generalizing before with
  | nil => cases h
  | cons head rest ih =>
    obtain ⟨c, mark⟩ := head
    rw [cut?] at h
    split at h
    · next hfound =>
      rw [Bool.and_eq_true, beq_iff_eq] at hfound
      obtain ⟨rfl, rfl⟩ := hfound
      obtain ⟨rfl, rfl⟩ := Prod.mk.inj (Option.some.inj h)
      exact ⟨[], rfl, rfl⟩
    · obtain ⟨⟨front, back⟩, hcut, he⟩ := Option.map_eq_some_iff.mp h
      obtain ⟨rfl, rfl⟩ := Prod.mk.inj he
      obtain ⟨left, rfl, rfl⟩ := ih hcut
      exact ⟨(c, mark) :: left, rfl, rfl⟩

/-- A search that starts behind a front is a search in the rest. -/
private theorem find?_offsetsFrom_after {target : Char} (htarget : IsAscii target) {left : Marked}
    {position : Nat} (hposition : position + 1 = left.text.byteSize) (after : Marked) :
    (Marked.offsetsFrom 0 (left ++ after)).find?
        (fun offset =>
          position < offset && charAt? offset (left.text ++ after.text) == some target) =
      (Marked.cut? target after).map fun cut => left.text.byteSize + cut.1.byteSize := by
  have hleft : (Marked.offsetsFrom 0 left).find?
      (fun offset => position < offset && charAt? offset (left.text ++ after.text) == some target) =
        none := by
    rw [List.find?_eq_none]
    intro offset hm hfound
    have hbounds := Marked.bounds_of_mem_offsetsFrom hm
    rw [Bool.and_eq_true, decide_eq_true_iff] at hfound
    omega
  rw [Marked.offsetsFrom_append, List.find?_append, hleft, Option.none_or, Nat.zero_add,
    ← find?_offsetsFrom htarget rfl]
  refine List.find?_congr fun offset hm => ?_
  have hbounds := Marked.bounds_of_mem_offsetsFrom hm
  rw [decide_eq_true (by omega), Bool.true_and]

/-- Behind a marked target, a search at the top level goes on where the cut by characters does. -/
private theorem find?_topLevelOffsets_after {text condition : Text} {after : Marked}
    {mark target : Char} (hmark : IsAscii mark) (htarget : IsAscii target)
    (h : Marked.cut? mark (topLevel text) = some (condition, after)) :
    (topLevelOffsets text).find?
        (fun offset => condition.byteSize < offset && charAt? offset text == some target) =
      (Marked.cut? target after).map fun cut => condition.byteSize + 1 + cut.1.byteSize := by
  obtain ⟨left, hmarked, rfl⟩ := Marked.exists_of_cut?_eq_some h
  have hsize : left.text.byteSize + 1 = byteSize (Marked.text (left ++ [(mark, true)])) := by
    rw [Marked.text_append]
    exact (byteSize_concat hmark _).symm
  have hafter := find?_offsetsFrom_after htarget hsize after
  have htext : text = Marked.text (left ++ [(mark, true)]) ++ after.text := by
    rw [← Marked.text_append, ← List.append_cons, ← hmarked, text_topLevel]
  rw [← hsize, ← htext, ← List.append_cons, ← hmarked, ← topLevelOffsets_eq] at hafter
  exact hafter

namespace Sliced

theorem conditional_eq (text : Text) :
    conditional text = .ok ((splitConditional? text).map fun parts =>
      (parts.1.trim, parts.2.1.trim, parts.2.2.trim)) := by
  have hascii : IsAscii '?' ∧ IsAscii ':' := by decide
  have hquestion := find?_topLevelOffsets hascii.1 text
  rw [conditional, hquestion]
  cases hcut : Marked.cut? '?' (topLevel text) with
  | none =>
    rw [splitConditional?, hcut]
    rfl
  | some cut =>
    obtain ⟨condition, after⟩ := cut
    have hcolon := find?_topLevelOffsets_after hascii.1 hascii.2 hcut
    have hsplit : splitConditional? text =
        (Marked.cut? ':' after).map fun cut => (condition, cut.1, Marked.text cut.2) := by
      rw [splitConditional?, hcut]
      exact Option.map_eq_bind.symm
    rw [Option.map_some]
    dsimp only
    rw [hcolon, hsplit]
    cases hcut' : Marked.cut? ':' after with
    | none => rfl
    | some cut =>
      obtain ⟨consequent, alternate⟩ := cut
      rw [hcut'] at hsplit
      have htext : text = condition ++ '?' :: (consequent ++ ':' :: alternate.text) :=
        eq_of_splitConditional? hsplit
      have hcondition : slice 0 condition.byteSize text = .ok condition := htext ▸ slice_front _ _
      have hconsequent : slice (condition.byteSize + 1)
            (condition.byteSize + 1 + consequent.byteSize) text =
          .ok consequent := by
        rw [← byteSize_concat hascii.1]
        refine slice_eq_ok_iff.mpr ⟨condition ++ ['?'], ':' :: alternate.text, ?_, rfl, rfl⟩
        rw [htext, List.append_cons, ← List.append_assoc]
      have halternate : slice (condition.byteSize + 1 + consequent.byteSize + 1)
            text.byteSize text =
          .ok alternate.text := by
        rw [htext, List.append_cons, ← List.append_assoc, List.append_cons]
        refine slice_back _ _ ?_
        rw [byteSize_concat hascii.2, byteSize_append, byteSize_concat hascii.1]
      simp only [Option.map_some, hcondition, hconsequent, halternate]
      rfl

end Sliced

/-! ## Infix operations -/

theorem isAscii_of_mem_symbol (op : BinaryOperator) : ∀ c ∈ op.symbol, IsAscii c := by
  have hall : (op.symbol.all fun c => decide (IsAscii c)) = true := by cases op <;> decide
  exact fun c hc => of_decide_eq_true (List.all_eq_true.mp hall c hc)

/-- A character outside ASCII after an operator is as good as none. -/
private theorem standsAlone_of_not_isAscii (op : BinaryOperator) (before : Text) {c : Char}
    (h : ¬IsAscii c) :
    op.standsAlone before (some c) = op.standsAlone before none := by
  have hother {d : Char} (hd : IsAscii d) : (some c == some d) = (none == some d) := by
    refine beq_eq_false_iff_ne.mpr fun he => ?_
    exact h (Option.some.inj he ▸ hd)
  cases op <;>
    simp only [BinaryOperator.standsAlone, hother (show IsAscii '=' by decide),
      hother (show IsAscii '<' by decide), hother (show IsAscii '>' by decide),
      hother (show IsAscii '+' by decide), hother (show IsAscii '-' by decide),
      hother (show IsAscii '*' by decide)]

/-- An operator is judged by the byte after it as by the character. -/
private theorem standsAlone_charAt? (op : BinaryOperator) (before rest : Text) :
    op.standsAlone before (charAt? 0 rest) = op.standsAlone before rest.head? := by
  cases rest with
  | nil => rfl
  | cons c rest =>
    by_cases hc : IsAscii c
    · exact congrArg (op.standsAlone before) (charAt?_append_cons hc [] rest)
    · have hnone : charAt? 0 (c :: rest) = none :=
        Option.eq_none_iff_forall_ne_some.mpr fun d hd => hc (eq_of_charAt?_zero hd).2
      rw [hnone, List.head?_cons, standsAlone_of_not_isAscii op before hc]

/-- A symbol is found at the start of marked text that starts with it. -/
theorem Marked.exists_after?_eq_some {symbol : Text} {marked : Marked}
    (h : symbol <+: marked.text) :
    ∃ after, after? symbol marked = some after := by
  induction symbol generalizing marked with
  | nil => exact ⟨marked, rfl⟩
  | cons s symbol ih =>
    cases marked with
    | nil => exact absurd (List.prefix_nil.mp h) (List.cons_ne_nil _ _)
    | cons head marked =>
      obtain ⟨c, mark⟩ := head
      obtain ⟨rfl, hrest⟩ := List.cons_prefix_cons.mp h
      rw [after?, if_pos rfl]
      exact ih hrest

theorem ok_bind {α β : Type} (a : α) (f : α → Except BadSlice β) : (Except.ok a >>= f) = f a := rfl

/-- A search that does not fail anywhere does not fail. -/
theorem findSomeM?_eq_ok {α β : Type} {f : α → Except BadSlice (Option β)} {g : α → Option β}
    {list : List α} (h : ∀ a, f a = .ok (g a)) : list.findSomeM? f = .ok (list.findSome? g) := by
  rw [funext h]
  exact List.findSomeM?_pure

/-- Where nothing is found, a search goes on. -/
theorem findSomeM?_append_of_none {α β : Type} {f : α → Except BadSlice (Option β)} {front : List α}
    (h : ∀ a ∈ front, f a = .ok none) (rest : List α) :
    (front ++ rest).findSomeM? f = rest.findSomeM? f := by
  induction front with
  | nil => rfl
  | cons a front ih =>
    obtain ⟨ha, hfront⟩ := List.forall_mem_cons.mp h
    rw [List.cons_append, List.findSomeM?_cons, ha, ok_bind]
    exact ih hfront

namespace Sliced

/-- At a character boundary, the bytes show the operator that the characters show. -/
private theorem operatorAt_eq (group : List BinaryOperator) (before : Text) (marked : Marked) :
    operatorAt group before.byteSize (before ++ marked.text) =
      .ok ((operator? group before.reverse marked).map Prod.fst) := by
  rw [operator?, List.map_findSome?]
  refine findSomeM?_eq_ok fun op => ?_
  have hdrop : (utf8 (before ++ marked.text)).drop before.byteSize = utf8 marked.text := by
    rw [utf8_append, ← length_utf8 before, List.drop_left]
  have hbytes := utf8_isPrefix_iff (isAscii_of_mem_symbol op) marked.text
  rw [hdrop, Function.comp_apply]
  by_cases hsymbol : op.symbol <+: marked.text
  · obtain ⟨after, hafter⟩ := Marked.exists_after?_eq_some hsymbol
    have hplace : charAt? (before.byteSize + op.symbol.byteSize) (before ++ marked.text) =
        charAt? 0 after.text := by
      have hzero := charAt?_append op.symbol after.text 0
      rwa [Nat.add_zero, ← Marked.eq_of_after?_eq_some hafter, ← charAt?_append before] at hzero
    have hhead : after.text.head? = after.head?.map Prod.fst := List.head?_map
    rw [if_pos (hbytes.mpr hsymbol), slice_front, ok_bind, hplace, standsAlone_charAt?, hhead,
      hafter, Option.bind_eq_bind, Option.bind_some, apply_ite (Option.map Prod.fst)]
    rfl
  · have hnone : Marked.after? op.symbol marked = none := by
      refine Option.eq_none_iff_forall_ne_some.mpr fun after hafter => hsymbol ?_
      rw [Marked.eq_of_after?_eq_some hafter]
      exact List.prefix_append _ _
    rw [if_neg fun hprefix => hsymbol (hbytes.mp hprefix), hnone]
    rfl

private theorem operatorAt_of_not_isAscii (group : List BinaryOperator) {before rest : Text}
    {c : Char} (hc : ¬IsAscii c) {offset : Nat}
    (hrange : offset ∈ List.range' before.byteSize c.utf8Size) :
    operatorAt group offset (before ++ c :: rest) = .ok none := by
  rw [operatorAt, ← List.append_nil group]
  refine findSomeM?_append_of_none (fun op _ => if_neg fun hprefix => ?_) []
  have hascii := isAscii_of_mem_symbol op
  cases hsymbol : op.symbol with
  | nil => exact absurd op.length_symbol_pos (by rw [hsymbol]; exact Nat.lt_irrefl 0)
  | cons s symbol =>
    rw [hsymbol] at hprefix hascii
    exact hc (eq_of_charAt?_eq_some hrange
      (charAt?_of_isPrefix (hascii s List.mem_cons_self) hprefix)).2

/-- The cut at an operator that stands at the start of the marked text. -/
def firstCut? (group : List BinaryOperator) (before : Text) (marked : Marked) :
    Option (BinaryOperator × Text × Text) :=
  (operator? group before.reverse marked).bind fun found =>
    if isBlankText before || isBlankText (Marked.text found.2) then none
    else some (found.1, before.trim, found.2.text.trim)

/-- At a character boundary, the bytes are cut where the characters are. -/
private theorem binaryAt_eq (group : List BinaryOperator) (before : Text) (marked : Marked) :
    binaryAt group (before ++ marked.text) before.byteSize =
      .ok (firstCut? group before marked) := by
  rw [binaryAt, operatorAt_eq, ok_bind, firstCut?]
  cases hfound : operator? group before.reverse marked with
  | none => rfl
  | some found =>
    obtain ⟨op, after⟩ := found
    have htext : before ++ marked.text = (before ++ op.symbol) ++ after.text := by
      rw [eq_of_operator? hfound, List.append_assoc]
    have hright : slice (before.byteSize + op.symbol.byteSize) (before ++ marked.text).byteSize
        (before ++ marked.text) = .ok after.text := by
      rw [htext]
      exact slice_back _ _ (byteSize_append before op.symbol).symm
    rw [Option.map_some, Option.bind_some]
    dsimp only
    rw [slice_front, ok_bind, hright, ok_bind]
    rfl

/-- A marked character starts an operator with operands on either side, or the search goes on behind
it. -/
private theorem splitGroup?_cons (group : List BinaryOperator) (before : Text) (c : Char)
    (rest : Marked) :
    ((splitGroup? group before.reverse ((c, true) :: rest)).map fun parts =>
        (parts.1, parts.2.1.trim, parts.2.2.trim)) =
      (firstCut? group before ((c, true) :: rest)).or
        ((splitGroup? group (before ++ [c]).reverse rest).map fun parts =>
          (parts.1, parts.2.1.trim, parts.2.2.trim)) := by
  rw [splitGroup?, if_pos rfl, firstCut?, List.reverse_concat]
  cases operator? group before.reverse ((c, true) :: rest) with
  | none => rfl
  | some found =>
    rw [Option.bind_some]
    dsimp only
    rw [isBlankText_reverse, List.reverse_reverse]
    split <;> rfl

/-- The first cut at one of the offsets is the first cut at a marked operator. -/
private theorem findSomeM?_binaryAt (group : List BinaryOperator) {text before : Text}
    {marked : Marked} (htext : text = before ++ marked.text) :
    (marked.offsetsFrom before.byteSize).findSomeM? (binaryAt group text) =
      .ok ((splitGroup? group before.reverse marked).map fun parts =>
        (parts.1, parts.2.1.trim, parts.2.2.trim)) := by
  induction marked generalizing before with
  | nil => rfl
  | cons head rest ih =>
    obtain ⟨c, mark⟩ := head
    have hat := binaryAt_eq group before ((c, mark) :: rest)
    rw [← htext] at hat
    rw [Marked.text_cons] at htext
    have hrest :=
      ih (show text = (before ++ [c]) ++ Marked.text rest by rw [htext, List.append_cons])
    rw [byteSize_append, byteSize_cons, byteSize_nil, Nat.add_zero] at hrest
    rw [Marked.offsetsFrom]
    cases mark with
    | false =>
      rw [List.reverse_concat] at hrest
      exact hrest
    | true =>
      rw [splitGroup?_cons, if_pos rfl]
      by_cases hc : IsAscii c
      · rw [utf8Size_of_isAscii hc, List.range'_one, List.singleton_append, List.findSomeM?_cons,
          hat, ok_bind]
        rw [utf8Size_of_isAscii hc] at hrest
        cases firstCut? group before ((c, true) :: rest) with
        | none => exact hrest
        | some parts => rfl
      · -- no operator at any byte of the character, in particular not at its first
        have hskip : ∀ offset ∈ List.range' before.byteSize c.utf8Size,
            binaryAt group text offset = .ok none := by
          intro offset hm
          rw [binaryAt, htext, operatorAt_of_not_isAscii group hc hm]
          rfl
        have hfirst : before.byteSize ∈ List.range' before.byteSize c.utf8Size :=
          List.mem_range'_1.mpr ⟨Nat.le_refl _, Nat.lt_add_of_pos_right c.utf8Size_pos⟩
        rw [findSomeM?_append_of_none hskip, hrest, Except.ok.inj (hat.symm.trans (hskip _ hfirst)),
          Option.none_or]

theorem binary_eq (text : Text) :
    binary text =
      .ok ((splitBinary? text).map fun parts => (parts.1, parts.2.1.trim, parts.2.2.trim)) := by
  have htext : text = [] ++ (topLevel text).text := (text_topLevel text).symm
  rw [splitBinary?, List.map_findSome?]
  refine findSomeM?_eq_ok fun group => ?_
  rw [topLevelOffsets_eq]
  exact findSomeM?_binaryAt group htext

/-! ## Prefix operations -/

theorem unary_eq (text : Text) : unary text = .ok (splitUnary? text) := by
  cases text with
  | nil => rfl
  | cons c rest =>
    have hoperand (hc : IsAscii c) : slice 1 (byteSize (c :: rest)) (c :: rest) = .ok rest :=
      slice_back [c] rest (utf8Size_of_isAscii hc).symm
    have hfirst (hc : IsAscii c) : charAt? 0 (c :: rest) = some c := charAt?_append_cons hc [] rest
    have hother {d : Char} (hne : c ≠ d) : charAt? 0 (c :: rest) ≠ some d :=
      fun hd => hne (eq_of_charAt?_zero hd).1
    by_cases hnot : c = '!'
    · subst hnot
      rw [unary, if_pos (hfirst (by decide)), hoperand (by decide), ok_bind]
      rfl
    by_cases hminus : c = '-'
    · subst hminus
      rw [unary, if_neg (hother hnot), if_pos (hfirst (by decide)), hoperand (by decide), ok_bind]
      cases rest with
      | nil => rfl
      | cons d rest =>
        rw [splitUnary?, List.head?_cons, Option.any_some]
        cases d.isDigit <;> rfl
    · rw [unary, if_neg (hother hnot), if_neg (hother hminus)]
      unfold splitUnary?
      split
      · next he => exact absurd (List.cons.inj he).1 hnot
      · next he => exact absurd (List.cons.inj he).1 hminus
      · rfl

end Sliced

end ComponentFile.Expression
