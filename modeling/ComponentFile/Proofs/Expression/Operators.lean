import ComponentFile.Proofs.Expression.Grammar

/-!
# Where operators are found

The symbol of an operator may stand for another operator, or be part of one: a minus sign may be a
sign, and an exclamation mark may start an inequality. A group of operators skips a piece of text
when none of the group is found there, whatever follows the piece.
-/

namespace ComponentFile.Expression

open BinaryOperator

/-! ## Fillers -/

/-- A character of names, numerals, paths or white space. -/
def isFiller (c : Char) : Bool := isBlank c || isNamePart c || c == '.'

/-- Fillers are plain. -/
theorem isPlain_of_isFiller {c : Char} (h : isFiller c = true) : isPlain c = true := by
  cases hplain : isPlain c with
  | true => rfl
  | false =>
    simp only [isPlain, isQuote, isOpener, isCloser, Bool.not_eq_false', Bool.or_eq_true,
      beq_iff_eq] at hplain
    rcases hplain with (((rfl | rfl) | rfl) | ((rfl | rfl) | rfl)) | ((rfl | rfl) | rfl) <;> cases h

/-- White space is a filler. -/
theorem Gap.isFiller_of_mem (gap : Gap) {c : Char} (h : c ∈ gap.text) : isFiller c = true := by
  have hblank := List.all_eq_true.mp gap.isBlankText c h
  rw [isFiller, hblank]
  rfl

/-- A character that is not blank is not in white space. -/
theorem Gap.not_mem (gap : Gap) {c : Char} (h : isBlank c = false) : c ∉ gap.text := by
  intro hm
  rw [List.all_eq_true.mp gap.isBlankText c hm] at h
  cases h

/-! ## Skipping -/

/-- The characters with which the operators of a group start. -/
def starts (group : List BinaryOperator) : Text := group.filterMap fun op => op.symbol.head?

/-- No operator starts with a filler. -/
theorem not_mem_starts {group : List BinaryOperator} (hgroup : group ∈ groups) {c : Char}
    (h : isFiller c = true) : c ∉ starts group := by
  have hstarts : (groups.all fun group => (starts group).all fun c => !isFiller c) = true := rfl
  intro hm
  have hfiller := List.all_eq_true.mp (List.all_eq_true.mp hstarts group hgroup) c hm
  rw [h] at hfiller
  cases hfiller

/-- An operator is found only where its first character stands. -/
theorem operator?_eq_none {group : List BinaryOperator} {c : Char} (h : c ∉ starts group)
    (before : Text) (mark : Bool) (rest : Marked) :
    operator? group before ((c, mark) :: rest) = none := by
  rw [operator?, List.findSome?_eq_none_iff]
  intro op hop
  have hnone : Marked.after? op.symbol ((c, mark) :: rest) = none := by
    obtain ⟨first, tail, hsymbol⟩ := List.exists_cons_of_length_pos op.length_symbol_pos
    have hne : first ≠ c := by
      rintro rfl
      exact h (List.mem_filterMap.mpr ⟨op, hop, by rw [hsymbol]; rfl⟩)
    rw [hsymbol, Marked.after?, if_neg hne]
  rw [hnone]
  rfl

/-- After `before`, no operator of the group is found in the marked text, whatever follows. -/
def Skips (group : List BinaryOperator) (before : Text) (marked : Marked) : Prop :=
  ∀ rest, splitGroup? group before (marked ++ rest) = splitGroup? group (marked.text.reverse ++
    before) rest

section

variable {group : List BinaryOperator} {before : Text}

theorem skips_nil (group : List BinaryOperator) (before : Text) : Skips group before [] :=
  fun _ => rfl

/-- Two pieces that are skipped can be put together. -/
theorem Skips.append {left right : Marked} (hleft : Skips group before left)
    (hright : Skips group (left.text.reverse ++ before) right) :
    Skips group before (left ++ right) := by
  intro rest
  rw [List.append_assoc, hleft, hright, Marked.text_append, List.reverse_append, List.append_assoc]

/-- A character without an operator is skipped. -/
theorem Skips.cons {c : Char} {marked : Marked}
    (h : ∀ rest, operator? group before ((c, true) :: (marked ++ rest)) = none)
    (hnext : Skips group (c :: before) marked) : Skips group before ((c, true) :: marked) := by
  intro rest
  rw [List.cons_append, splitGroup?, if_pos rfl, h rest]
  dsimp only
  rw [hnext rest, Marked.text_cons, List.reverse_cons, List.append_assoc, List.singleton_append]

/-- Characters without a mark are skipped. -/
theorem skips_hidden (group : List BinaryOperator) (before text : Text) :
    Skips group before (Marked.hidden text) := by
  induction text generalizing before with
  | nil => exact skips_nil group before
  | cons c text ih =>
    intro rest
    have hrest := ih (c :: before) rest
    rw [Marked.text_hidden] at hrest ⊢
    rw [List.reverse_cons, List.append_assoc, List.singleton_append, ← hrest]
    rfl

/-- Characters that start no operator are skipped. -/
theorem skips_plain {text : Text} (h : ∀ c ∈ text, c ∉ starts group) (before : Text) :
    Skips group before (Marked.plain text) := by
  induction text generalizing before with
  | nil => exact skips_nil group before
  | cons c text ih =>
    refine Skips.cons (fun rest => operator?_eq_none (h c List.mem_cons_self) before true _) ?_
    exact ih (fun d hd => h d (List.mem_cons_of_mem _ hd)) (c :: before)

/-- Fillers are skipped. -/
theorem skips_filler (hgroup : group ∈ groups) {text : Text} (h : ∀ c ∈ text, isFiller c = true)
    (before : Text) : Skips group before (Marked.plain text) :=
  skips_plain (fun c hc => not_mem_starts hgroup (h c hc)) before

/-- Nothing is found in a text that is skipped. -/
theorem Skips.splitGroup?_eq_none {marked : Marked} (h : Skips group before marked) :
    splitGroup? group before marked = none := by
  have hall := h []
  rwa [List.append_nil] at hall

end

/-! ## Prefix operators -/

/-- A minus sign where a sign can stand is no operator. -/
theorem operator?_sign {group : List BinaryOperator} (hgroup : group ∈ groups) {before : Text}
    (hplace : isSignPlace before = true) (rest : Marked) :
    operator? group before (('-', true) :: rest) = none := by
  by_cases hstart : '-' ∈ starts group
  · have hadditive : ∀ group ∈ groups, '-' ∈ starts group → group = [.add, .subtract] := by decide
    rw [hadditive group hgroup hstart]
    simp [operator?, symbol, Marked.after?, standsAlone, hplace]
  · exact operator?_eq_none hstart before true rest

/-- The operators of equality have the equals sign as their second character. -/
theorem operator?_equality {c d : Char} (hd : d ≠ '=') (before : Text) (mark : Bool)
    (rest : Marked) :
    operator? [.strictEqual, .strictNotEqual, .equal, .notEqual] before
        ((c, true) :: (d, mark) :: rest) =
      none := by
  have hne : ¬ '=' = d := Ne.symm hd
  rw [operator?, List.findSome?_eq_none_iff]
  intro op hop
  have hnone : Marked.after? op.symbol ((c, true) :: (d, mark) :: rest) = none := by
    simp only [List.mem_cons, List.not_mem_nil, or_false] at hop
    rcases hop with rfl | rfl | rfl | rfl <;> simp [symbol, Marked.after?, hne]
  rw [hnone]
  rfl

/-- An exclamation mark without an equals sign after it is no operator. -/
theorem operator?_not {group : List BinaryOperator} (hgroup : group ∈ groups) {d : Char}
    (hd : d ≠ '=') (before : Text) (mark : Bool) (rest : Marked) :
    operator? group before (('!', true) :: (d, mark) :: rest) = none := by
  by_cases hstart : '!' ∈ starts group
  · have hequality : ∀ group ∈ groups, '!' ∈ starts group →
        group = [.strictEqual, .strictNotEqual, .equal, .notEqual] := by decide
    rw [hequality group hgroup hstart]
    exact operator?_equality hd before mark rest
  · exact operator?_eq_none hstart before true _

/-! ## Operators of other groups -/

/-- A blank is none of the characters of operators. -/
theorem ne_of_isBlank {b c : Char} (hb : isBlank b = true) (hc : isBlank c = false) : b ≠ c := by
  rintro rfl
  rw [hb] at hc
  cases hc

/-- An operator of one group is in no looser group. -/
theorem not_mem_of_mem_take {k : Nat} {group other : List BinaryOperator} {op : BinaryOperator}
    (hgroup : groups[k]? = some group) (hop : op ∈ group) (hother : other ∈ groups.take k) :
    op ∉ other := by
  have hpairs : groups.Pairwise fun other group => ∀ op ∈ group, op ∉ other := by decide
  have hlater : group ∈ groups.drop k := by
    have hfirst : (groups.drop k)[0]? = some group := by
      rw [List.getElem?_drop, Nat.add_zero, hgroup]
    exact List.mem_of_getElem? hfirst
  rw [← List.take_append_drop k groups] at hpairs
  exact (List.pairwise_append.mp hpairs).2.2 other hother group hlater op hop

/-- Only the equals sign in two comparisons looks like the start of an operator of another group. -/
private theorem starts_cases {group : List BinaryOperator} {op : BinaryOperator}
    (hgroup : group ∈ groups) (hop : op ∉ group) :
    (∀ c ∈ op.symbol, c ∉ starts group) ∨
      group = [.strictEqual, .strictNotEqual, .equal, .notEqual] ∧
        (op = .greaterEqual ∨ op = .lessEqual) := by
  have hgroups : ∀ group ∈ groups, op ∉ group →
      (op.symbol.all fun c => !List.contains (starts group) c) = true ∨
        group = [.strictEqual, .strictNotEqual, .equal, .notEqual] ∧
          (op = .greaterEqual ∨ op = .lessEqual) := by
    cases op <;> decide
  refine (hgroups group hgroup hop).imp_left fun hall c hc hm => ?_
  have hout := List.all_eq_true.mp hall c hc
  rw [List.contains_iff_mem.mpr hm] at hout
  cases hout

/-- An operator with white space after it is skipped by the other groups. -/
theorem skips_symbol {group : List BinaryOperator} {op : BinaryOperator} (hgroup : group ∈ groups)
    (hop : op ∉ group) (gap : Gap) (hgap : gap.text ≠ []) (before : Text) :
    Skips group before (Marked.plain (op.symbol ++ gap.text)) := by
  by_cases hstarts : ∀ c ∈ op.symbol, c ∉ starts group
  · refine skips_plain (fun c hc => ?_) before
    rcases List.mem_append.mp hc with hc | hc
    · exact hstarts c hc
    · exact not_mem_starts hgroup (gap.isFiller_of_mem hc)
  · obtain ⟨rfl, hcompare⟩ := (starts_cases hgroup hop).resolve_left hstarts
    obtain ⟨b, rest, htext⟩ := List.exists_cons_of_ne_nil hgap
    have hblank : isBlank b = true := by
      refine List.all_eq_true.mp gap.isBlankText b ?_
      rw [htext]
      exact List.mem_cons_self
    have hne : b ≠ '=' := ne_of_isBlank hblank rfl
    have hgapSkips (before : Text) : Skips _ before (Marked.plain gap.text) :=
      skips_filler hgroup (fun c hc => gap.isFiller_of_mem hc) before
    have hequals (before : Text) : Skips [.strictEqual, .strictNotEqual, .equal, .notEqual] before
        (('=', true) :: Marked.plain gap.text) := by
      refine Skips.cons (fun rest => ?_) (hgapSkips _)
      rw [htext]
      exact operator?_equality hne before true _
    rcases hcompare with rfl | rfl
    · exact Skips.cons (fun rest => operator?_eq_none (by decide) before true _) (hequals _)
    · exact Skips.cons (fun rest => operator?_eq_none (by decide) before true _) (hequals _)

/-! ## Finding an operator -/

/-- An operator between white space, after an operand, is found. -/
theorem operator?_symbol {k : Nat} {group : List BinaryOperator} {op : BinaryOperator}
    (hgroup : groups[k]? = some group) (hop : op ∈ group) {a b : Char} {before : Text}
    (ha : isBlank a = true) (hb : isBlank b = true) (hplace : isSignPlace (a :: before) = false)
    (rest : Marked) :
    operator? group (a :: before) (Marked.plain op.symbol ++ (b, true) :: rest) =
      some (op, (b, true) :: rest) := by
  have hne (c : Char) (hc : isBlank c = false) : a ≠ c ∧ b ≠ c :=
    ⟨ne_of_isBlank ha hc, ne_of_isBlank hb hc⟩
  have hequals := hne '=' rfl
  have hless := hne '<' rfl
  have hgreater := hne '>' rfl
  have hplus := hne '+' rfl
  have hminus := hne '-' rfl
  have htimes := hne '*' rfl
  have hnot := hne '!' rfl
  have hmem : group ∈ groups := List.mem_of_getElem? hgroup
  simp only [groups, List.mem_cons, List.not_mem_nil, or_false] at hmem
  rcases hmem with rfl | rfl | rfl | rfl | rfl | rfl <;>
    simp only [List.mem_cons, List.not_mem_nil, or_false] at hop
  · subst hop
    rfl
  · subst hop
    rfl
  · rcases hop with rfl | rfl | rfl | rfl <;>
      simp [operator?, symbol, Marked.after?, Marked.plain, standsAlone, hequals, hless, hgreater,
        hnot, Ne.symm hequals.2]
  · rcases hop with rfl | rfl | rfl | rfl <;>
      simp [operator?, symbol, Marked.after?, Marked.plain, standsAlone, hequals, hless, hgreater,
        Ne.symm hequals.2]
  · rcases hop with rfl | rfl <;>
      simp [operator?, symbol, Marked.after?, Marked.plain, standsAlone, hplus, hminus, hplace]
  · rcases hop with rfl | rfl | rfl <;>
      simp [operator?, symbol, Marked.after?, Marked.plain, standsAlone, htimes]

/-- A cut is made at an operator with operands on both sides. -/
theorem splitGroup?_symbol {group : List BinaryOperator} {op : BinaryOperator} {before : Text}
    {rest : Marked}
    (hfound : operator? group before (Marked.plain op.symbol ++ rest) = some (op, rest))
    (hbefore : before.isBlankText = false) (hrest : rest.text.isBlankText = false) :
    splitGroup? group before (Marked.plain op.symbol ++ rest) =
      some (op, before.reverse, rest.text) := by
  obtain ⟨first, tail, hsymbol⟩ := List.exists_cons_of_length_pos op.length_symbol_pos
  have hcons : Marked.plain op.symbol ++ rest = (first, true) :: (Marked.plain tail ++ rest) := by
    rw [hsymbol]
    rfl
  rw [hcons] at hfound ⊢
  rw [splitGroup?, if_pos rfl, hfound]
  dsimp only
  rw [hbefore, hrest, Bool.or_self, if_neg Bool.false_ne_true]

end ComponentFile.Expression
