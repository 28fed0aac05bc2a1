import ComponentFile.Proofs.Expression.Operators

/-!
# The shape of phrases

What the derivation of a phrase says about its text, before any reading: it is closed, it starts and
ends like an operand, operators and separators of looser kinds do not show in it, and in the tighter
kinds it has no prefix operator.
-/

namespace ComponentFile.Expression

open BinaryOperator

/-! ## The ends of phrases -/

/-- A character with which an operand starts. -/
def isOperandStart (c : Char) : Bool :=
  isNamePart c || isQuote c || c == '(' || c == '-' || c == '!'

/-- A character with which an operand ends. -/
def isOperandEnd (c : Char) : Bool := isNamePart c || isQuote c || c == ')'

/-- The characters with which names start, by their numbers. -/
theorem toNat_of_isNameStart {c : Char} (h : isNameStart c = true) :
    65 ≤ c.toNat ∧ c.toNat ≤ 90 ∨ 97 ≤ c.toNat ∧ c.toNat ≤ 122 ∨ c.toNat = 95 ∨ c.toNat = 36 := by
  rw [isNameStart, Bool.or_eq_true, Bool.or_eq_true, beq_iff_eq, beq_iff_eq] at h
  rcases h with (h | rfl) | rfl
  · exact (Text.toNat_of_isAlpha h).imp id Or.inl
  · exact .inr (.inr (.inl rfl))
  · exact .inr (.inr (.inr rfl))

/-- The characters of names are not blank. -/
theorem isBlank_of_isNamePart {c : Char} (h : isNamePart c = true) : isBlank c = false := by
  have hrange : 36 ≤ c.toNat ∧ c.toNat ≤ 122 := by
    rw [isNamePart, Bool.or_eq_true] at h
    rcases h with h | h
    · have hstart := toNat_of_isNameStart h
      omega
    · have hdigit := Text.toNat_of_isDigit h
      omega
  exact Text.isBlank_of_toNat (by omega) (by omega)

theorem isBlank_of_isQuote {c : Char} (h : isQuote c = true) : isBlank c = false := by
  simp only [isQuote, Bool.or_eq_true, beq_iff_eq] at h
  rcases h with (rfl | rfl) | rfl <;> decide

/-- An operand starts with no blank. -/
theorem isBlank_of_isOperandStart {c : Char} (h : isOperandStart c = true) : isBlank c = false := by
  simp only [isOperandStart, Bool.or_eq_true, beq_iff_eq] at h
  rcases h with (((h | h) | rfl) | rfl) | rfl
  · exact isBlank_of_isNamePart h
  · exact isBlank_of_isQuote h
  · decide
  · decide
  · decide

/-- An operand ends with no blank. -/
theorem isBlank_of_isOperandEnd {c : Char} (h : isOperandEnd c = true) : isBlank c = false := by
  simp only [isOperandEnd, Bool.or_eq_true, beq_iff_eq] at h
  rcases h with (h | h) | rfl
  · exact isBlank_of_isNamePart h
  · exact isBlank_of_isQuote h
  · decide

private theorem isSignPlace_of_isOperandEnd {c : Char} (h : isOperandEnd c = true) (before : Text) :
    isSignPlace (c :: before) = false := by
  have hblank : ¬ isBlank c = true := by simp [isBlank_of_isOperandEnd h]
  rw [isSignPlace, List.dropWhile_cons_of_neg hblank]
  cases hsign : ['+', '-', '*', '/', '%', '<', '>', '=', '!', '&', '|', '?', ':', '(', ',', '[',
    '\x7b'].contains c with
  | false => exact hsign
  | true =>
    have hnone : (['+', '-', '*', '/', '%', '<', '>', '=', '!', '&', '|', '?', ':', '(', ',',
        '[', '\x7b'].all
        fun d => !isOperandEnd d) = true := rfl
    have hend := List.all_eq_true.mp hnone c (List.contains_iff_mem.mp hsign)
    rw [h] at hend
    cases hend

/-- White space makes no difference to the place of a sign. -/
theorem isSignPlace_gap (gap : Gap) (before : Text) :
    isSignPlace (gap.text.reverse ++ before) = isSignPlace before := by
  have hdrop : (gap.text.reverse ++ before).dropWhile isBlank = before.dropWhile isBlank := by
    refine List.dropWhile_append_of_pos fun c hc => ?_
    exact List.all_eq_true.mp gap.isBlankText c (List.mem_reverse.mp hc)
  rw [isSignPlace, isSignPlace, hdrop]

private theorem isSignPlace_symbol (op : BinaryOperator) (before : Text) :
    isSignPlace (op.symbol.reverse ++ before) = true := by
  cases op <;> rfl

/-! ## Shapes -/

/-- A question mark, a colon and a comma are no fillers. -/
theorem not_isFiller_of_separator {c : Char} (h : c ∈ ['?', ':', ',']) : ¬ isFiller c = true := by
  have hnone : (['?', ':', ','].all fun c => !isFiller c) = true := rfl
  have hc := List.all_eq_true.mp hnone c h
  rw [Bool.not_eq_true'] at hc
  exact Bool.eq_false_iff.mp hc

namespace Phrase

/-- The number of groups whose operators do not show in phrases of this kind. -/
def rank : Phrase → Nat
  | .choice => 0
  | .operation k => k
  | .signed | .called | .atom | .path => groups.length

/-- The separators that do not show in phrases of this kind. -/
def separators : Phrase → Text
  | .choice => [',']
  | .operation _ | .signed | .called | .atom | .path => ['?', ':', ',']

/-- Phrases of this kind have no prefix operator. -/
def isTight : Phrase → Bool
  | .choice | .operation _ | .signed => false
  | .called | .atom | .path => true

/-- All separators. -/
theorem mem_separators {phrase : Phrase} {c : Char} (h : c ∈ phrase.separators) :
    c ∈ ['?', ':', ','] := by
  cases phrase with
  | choice => exact List.mem_cons_of_mem _ (List.mem_cons_of_mem _ h)
  | operation | signed | called | atom | path => exact h

/-- A separator is no filler. -/
theorem not_isFiller {phrase : Phrase} {c : Char} (h : c ∈ phrase.separators) :
    ¬ isFiller c = true :=
  not_isFiller_of_separator (mem_separators h)

end Phrase

/-- What can be said of the text of a phrase. -/
structure Shape (phrase : Phrase) (text : Text) : Prop where
  closed : Closed text
  first : ∃ c rest, text = c :: rest ∧ isOperandStart c = true
  last : ∃ front c, text = front ++ [c] ∧ isOperandEnd c = true
  skips : ∀ group ∈ groups.take phrase.rank, ∀ before, isSignPlace before = true →
    Skips group before (topLevel text)
  shown : ∀ c ∈ phrase.separators, c ∉ (topLevel text).shown
  unsigned : phrase.isTight = true → ∀ rest, splitUnary? (text ++ rest) = none

namespace Shape

variable {phrase : Phrase} {text : Text}

/-- A phrase of a tight kind is one of a looser kind. -/
theorem loosen {loose : Phrase} (h : Shape phrase text) (hrank : loose.rank ≤ phrase.rank)
    (hseparators : loose.separators ⊆ phrase.separators)
    (htight : loose.isTight = true → phrase.isTight = true) : Shape loose text where
  closed := h.closed
  first := h.first
  last := h.last
  skips := fun group hm => h.skips group (List.take_subset_take_left groups hrank hm)
  shown := fun c hc => h.shown c (hseparators hc)
  unsigned := fun hloose => h.unsigned (htight hloose)

/-- A phrase has no blanks around it. -/
theorem trim_eq (h : Shape phrase text) : text.trim = text := by
  refine Text.trim_eq_self (fun c hc => ?_) (fun c hc => ?_)
  · obtain ⟨first, rest, rfl, hfirst⟩ := h.first
    rw [← Option.some.inj hc]
    exact isBlank_of_isOperandStart hfirst
  · obtain ⟨front, last, rfl, hlast⟩ := h.last
    rw [List.getLast?_concat] at hc
    rw [← Option.some.inj hc]
    exact isBlank_of_isOperandEnd hlast

/-- A phrase is not empty. -/
theorem ne_nil (h : Shape phrase text) : text ≠ [] := by
  obtain ⟨c, rest, rfl, -⟩ := h.first
  exact List.cons_ne_nil c rest

/-- A phrase is not blank. -/
theorem isBlankText_eq_false (h : Shape phrase text) : text.isBlankText = false := by
  obtain ⟨c, rest, rfl, hc⟩ := h.first
  exact Text.isBlankText_of_mem List.mem_cons_self (isBlank_of_isOperandStart hc)

/-- After a phrase and white space a sign has no place. -/
theorem isSignPlace_reverse (h : Shape phrase text) (before : Text) :
    isSignPlace (text.reverse ++ before) = false := by
  obtain ⟨front, c, rfl, hc⟩ := h.last
  rw [List.reverse_append, List.reverse_singleton, List.append_assoc]
  exact isSignPlace_of_isOperandEnd hc _

end Shape

/-- White space is closed, and at the top level. -/
theorem Gap.closed (gap : Gap) : Closed gap.text :=
  closed_of_isPlain fun _ hc => isPlain_of_isFiller (gap.isFiller_of_mem hc)

theorem Gap.topLevel_eq (gap : Gap) : topLevel gap.text = Marked.plain gap.text :=
  topLevel_of_isPlain fun _ hc => isPlain_of_isFiller (gap.isFiller_of_mem hc)

/-! ## Atoms -/

/-- A text that starts with neither prefix operator has none. -/
theorem splitUnary?_eq_none {c : Char} (hnot : c ≠ '!') (hminus : c ≠ '-') (rest : Text) :
    splitUnary? (c :: rest) = none := by
  unfold splitUnary?
  split
  · next he => exact absurd (List.cons.inj he).1 hnot
  · next he => exact absurd (List.cons.inj he).1 hminus
  · rfl

/-- A word of fillers has the shape of any phrase. -/
theorem shape_filler (phrase : Phrase) {text : Text} (h : ∀ c ∈ text, isFiller c = true)
    (hfirst : ∃ c rest, text = c :: rest ∧ isNamePart c = true)
    (hlast : ∃ front c, text = front ++ [c] ∧ isNamePart c = true) : Shape phrase text := by
  have hplain : ∀ c ∈ text, isPlain c = true := fun c hc => isPlain_of_isFiller (h c hc)
  obtain ⟨first, rest, htext, hstart⟩ := hfirst
  obtain ⟨front, last, htext', hstop⟩ := hlast
  refine ⟨closed_of_isPlain hplain, ⟨first, rest, htext, ?_⟩, ⟨front, last, htext', ?_⟩, ?_, ?_, ?_⟩
  · simp only [isOperandStart, hstart, Bool.true_or]
  · simp only [isOperandEnd, hstop, Bool.true_or]
  · intro group hm before _
    rw [topLevel_of_isPlain hplain]
    exact skips_filler (List.mem_of_mem_take hm) h before
  · intro c hc hm
    rw [topLevel_of_isPlain hplain, Marked.shown_plain] at hm
    exact Phrase.not_isFiller hc (h c hm)
  · intro _ more
    rw [htext, List.cons_append]
    refine splitUnary?_eq_none ?_ ?_ (rest ++ more)
    · rintro rfl
      cases hstart
    · rintro rfl
      cases hstart

private theorem shape_hidden {text : Text} (hclosed : Closed text)
    (htop : topLevel text = Marked.hidden text)
    (hfirst : ∃ c rest, text = c :: rest ∧ (isQuote c || c == '(') = true)
    (hlast : ∃ front c, text = front ++ [c] ∧ isOperandEnd c = true) : Shape .atom text := by
  obtain ⟨first, rest, htext, hstart⟩ := hfirst
  refine ⟨hclosed, ⟨first, rest, htext, ?_⟩, hlast, ?_, ?_, ?_⟩
  · rw [Bool.or_eq_true] at hstart
    rcases hstart with
      hstart | hstart <;> simp only [isOperandStart, hstart, Bool.or_true, Bool.true_or]
  · intro group _ before _
    rw [htop]
    exact skips_hidden group before text
  · intro c _ hm
    rw [htop, Marked.shown_hidden] at hm
    cases hm
  · intro _ more
    rw [htext, List.cons_append]
    refine splitUnary?_eq_none ?_ ?_ (rest ++ more)
    · rintro rfl
      cases hstart
    · rintro rfl
      cases hstart

/-! ## Longer phrases -/

/-- A text with which a phrase can go on: no operators and no separators show in it. -/
structure Trailing (more : Text) : Prop where
  closed : Closed more
  last : ∃ front c, more = front ++ [c] ∧ isOperandEnd c = true
  skips : ∀ group ∈ groups, ∀ before, Skips group before (topLevel more)
  shown : ∀ c ∈ ['?', ':', ','], c ∉ (topLevel more).shown

/-- A phrase can go on with fillers. -/
theorem trailing_filler {more : Text} (hfiller : ∀ c ∈ more, isFiller c = true)
    (hlast : ∃ front c, more = front ++ [c] ∧ isNamePart c = true) : Trailing more := by
  have hplain := fun c hc => isPlain_of_isFiller (hfiller c hc)
  obtain ⟨front, c, hmore, hc⟩ := hlast
  refine ⟨closed_of_isPlain hplain, ⟨front, c, hmore, ?_⟩, ?_, ?_⟩
  · simp only [isOperandEnd, hc, Bool.true_or]
  · intro group hgroup before
    rw [topLevel_of_isPlain hplain]
    exact skips_filler hgroup hfiller before
  · intro d hd hm
    rw [topLevel_of_isPlain hplain, Marked.shown_plain] at hm
    exact not_isFiller_of_separator hd (hfiller d hm)

/-- A phrase can go on with an argument list. -/
theorem trailing_parenthesized (gap : Gap) {inner : Text} (hinner : Closed inner) :
    Trailing (gap.text ++ parenthesized inner) := by
  have htop : topLevel (gap.text ++ parenthesized inner) =
      Marked.plain gap.text ++ Marked.hidden (parenthesized inner) := by
    rw [gap.closed.topLevel_append, gap.topLevel_eq, topLevel_parenthesized hinner]
  refine ⟨gap.closed.append (closed_parenthesized hinner),
    ⟨gap.text ++ '(' :: inner, ')', ?_, rfl⟩, ?_, ?_⟩
  · simp only [parenthesized, List.append_assoc, List.cons_append]
  · intro group hgroup before
    rw [htop]
    exact (skips_filler hgroup (fun c hc => gap.isFiller_of_mem hc) before).append
      (skips_hidden group _ _)
  · intro c hc hm
    rw [htop, Marked.shown_append, Marked.shown_plain, Marked.shown_hidden, List.append_nil] at hm
    exact not_isFiller_of_separator hc (gap.isFiller_of_mem hm)

namespace Shape

variable {phrase : Phrase} {text : Text}

/-- A phrase that goes on. -/
theorem append (h : Shape phrase text) {more : Text} (hmore : Trailing more) :
    Shape phrase (text ++ more) where
  closed := h.closed.append hmore.closed
  first := by
    obtain ⟨c, rest, rfl, hc⟩ := h.first
    exact ⟨c, rest ++ more, List.cons_append, hc⟩
  last := by
    obtain ⟨front, c, rfl, hc⟩ := hmore.last
    exact ⟨text ++ front, c, (List.append_assoc text front [c]).symm, hc⟩
  skips := by
    intro group hm before hplace
    rw [h.closed.topLevel_append]
    exact (h.skips group hm before hplace).append (hmore.skips group (List.mem_of_mem_take hm) _)
  shown := by
    intro c hc
    rw [h.closed.topLevel_append, Marked.shown_append, List.mem_append, not_or]
    exact ⟨h.shown c hc, hmore.shown c (Phrase.mem_separators hc)⟩
  unsigned := by
    intro htight rest
    rw [List.append_assoc]
    exact h.unsigned htight (more ++ rest)

/-- A phrase with white space before it does not start with an equals sign. -/
theorem exists_head (h : Shape phrase text) (gap : Gap) :
    ∃ d mark rest, Marked.plain gap.text ++ topLevel text = (d, mark) :: rest ∧ d ≠ '=' := by
  obtain ⟨d, rest, hhead, hne⟩ : ∃ d rest, gap.text ++ text = d :: rest ∧ d ≠ '=' := by
    obtain ⟨first, rest, rfl, hfirst⟩ := h.first
    cases hgap : gap.text with
    | nil =>
      refine ⟨first, rest, rfl, ?_⟩
      rintro rfl
      cases hfirst
    | cons b blanks =>
      refine ⟨b, blanks ++ first :: rest, rfl, ?_⟩
      rintro rfl
      exact gap.not_mem rfl (hgap ▸ List.mem_cons_self)
  have htext : Marked.text (Marked.plain gap.text ++ topLevel text) = d :: rest := by
    rw [Marked.text_append, Marked.text_plain, text_topLevel, hhead]
  obtain ⟨mark, tail, hmarked⟩ := Marked.exists_eq_cons htext
  exact ⟨d, mark, tail, hmarked, hne⟩

/-- A prefix operator before a phrase is no infix operator. -/
theorem operator?_prefixed (h : Shape phrase text) (gap : Gap) {c : Char} (hc : c = '!' ∨ c = '-')
    {group : List BinaryOperator} (hgroup : group ∈ groups) {before : Text}
    (hplace : isSignPlace before = true) (rest : Marked) :
    operator? group before ((c, true) :: (Marked.plain gap.text ++ topLevel text ++ rest)) =
      none := by
  rcases hc with rfl | rfl
  · obtain ⟨d, mark, tail, hmarked, hne⟩ := h.exists_head gap
    rw [hmarked]
    exact operator?_not hgroup hne before mark _
  · exact operator?_sign hgroup hplace _

/-- A phrase can have a prefix operator before it. -/
theorem prefixed (h : Shape phrase text) (gap : Gap) {c : Char} (hc : c = '!' ∨ c = '-')
    (hunsigned : phrase.isTight = true → ∀ rest,
      splitUnary? (c :: (gap.text ++ text) ++ rest) = none) :
    Shape phrase (c :: (gap.text ++ text)) := by
  have hplain : isPlain c = true := by rcases hc with rfl | rfl <;> rfl
  have htop : topLevel (c :: (gap.text ++ text)) =
      (c, true) :: (Marked.plain gap.text ++ topLevel text) := by
    rw [topLevel_cons hplain, gap.closed.topLevel_append, gap.topLevel_eq]
  refine ⟨?_, ⟨c, _, rfl, ?_⟩, ?_, ?_, ?_, hunsigned⟩
  · rw [← List.singleton_append]
    exact (closed_singleton hplain).append (gap.closed.append h.closed)
  · rcases hc with rfl | rfl <;> rfl
  · obtain ⟨front, last, rfl, hlast⟩ := h.last
    refine ⟨c :: (gap.text ++ front), last, ?_, hlast⟩
    rw [List.cons_append, List.append_assoc]
  · intro group hm before hplace
    have hgroup := List.mem_of_mem_take hm
    have hsign : isSignPlace (c :: before) = true := by rcases hc with rfl | rfl <;> rfl
    rw [htop]
    refine Skips.cons (h.operator?_prefixed gap hc hgroup hplace) ?_
    refine (skips_filler hgroup (fun d hd => gap.isFiller_of_mem hd) _).append ?_
    refine h.skips group hm _ ?_
    rwa [Marked.text_plain, isSignPlace_gap]
  · intro d hd
    rw [htop, Marked.shown, if_pos rfl, Marked.shown_append, Marked.shown_plain, List.mem_cons,
      List.mem_append]
    rintro (rfl | hm | hm)
    · have hseparator := Phrase.mem_separators hd
      rcases hc with rfl | rfl <;> revert hseparator <;> decide
    · exact Phrase.not_isFiller hd (gap.isFiller_of_mem hm)
    · exact h.shown d hd hm

end Shape

/-- The symbols of operators are plain. -/
theorem isPlain_symbol (op : BinaryOperator) : ∀ c ∈ op.symbol, isPlain c = true :=
  List.all_eq_true.mp (by cases op <;> rfl)

/-- No separator is part of an operator. -/
theorem not_mem_symbol {c : Char} (h : c ∈ ['?', ':', ',']) (op : BinaryOperator) :
    c ∉ op.symbol := by
  have hall : (op.symbol.all fun d => !(['?', ':', ','].contains d)) = true := by cases op <;> rfl
  intro hm
  have hc := List.all_eq_true.mp hall c hm
  rw [List.contains_iff_mem.mpr h] at hc
  cases hc

/-- The marks of an operation. -/
theorem topLevel_operation {left right : Text} (hleft : Closed left) (g₁ g₂ : Gap)
    (op : BinaryOperator) :
    topLevel (left ++ g₁.text ++ op.symbol ++ g₂.text ++ right) =
      topLevel left ++ (Marked.plain g₁.text ++ (Marked.plain op.symbol ++ (Marked.plain g₂.text ++
        topLevel right))) := by
  have hsymbol := closed_of_isPlain (isPlain_symbol op)
  simp only [List.append_assoc]
  rw [hleft.topLevel_append, g₁.closed.topLevel_append, hsymbol.topLevel_append,
    g₂.closed.topLevel_append, g₁.topLevel_eq, g₂.topLevel_eq,
    topLevel_of_isPlain (isPlain_symbol op)]

/-- The marks of a choice. -/
theorem topLevel_choice {condition consequent alternate : Text} (hcondition : Closed condition)
    (hconsequent : Closed consequent) (g₁ g₂ g₃ g₄ : Gap) :
    topLevel (condition ++ g₁.text ++ '?' ::
        (g₂.text ++ consequent ++ g₃.text ++ ':' :: (g₄.text ++ alternate))) =
      topLevel condition ++ Marked.plain g₁.text ++ ('?', true) ::
        (Marked.plain g₂.text ++ topLevel consequent ++ Marked.plain g₃.text ++ (':', true) ::
          (Marked.plain g₄.text ++ topLevel alternate)) := by
  simp only [List.append_assoc]
  rw [hcondition.topLevel_append, g₁.closed.topLevel_append, topLevel_cons rfl,
    g₂.closed.topLevel_append, hconsequent.topLevel_append, g₃.closed.topLevel_append,
    topLevel_cons rfl, g₄.closed.topLevel_append, g₁.topLevel_eq, g₂.topLevel_eq, g₃.topLevel_eq,
    g₄.topLevel_eq]

/-- The shape of an operation. -/
theorem Shape.operation {k : Nat} {group : List BinaryOperator} {op : BinaryOperator}
    {left right : Text} (g₁ g₂ : Gap) (hgroup : groups[k]? = some group) (hop : op ∈ group)
    (hg₂ : g₂.text ≠ []) (hleft : Shape (.operation (k + 1)) left)
    (hright : Shape (.operation k) right) :
    Shape (.operation k) (left ++ g₁.text ++ op.symbol ++ g₂.text ++ right) where
  closed := (((hleft.closed.append g₁.closed).append (closed_of_isPlain (isPlain_symbol op))).append
    g₂.closed).append hright.closed
  first := by
    obtain ⟨c, rest, rfl, hc⟩ := hleft.first
    exact ⟨c, _, rfl, hc⟩
  last := by
    obtain ⟨front, c, rfl, hc⟩ := hright.last
    exact ⟨left ++ g₁.text ++ op.symbol ++ g₂.text ++ front,
      c, by simp only [List.append_assoc], hc⟩
  skips := by
    intro other hm before hplace
    have hother := List.mem_of_mem_take hm
    rw [topLevel_operation hleft.closed]
    refine (hleft.skips other (List.take_subset_take_left groups (Nat.le_succ k) hm)
      before hplace).append ?_
    refine (skips_filler hother (fun c hc => g₁.isFiller_of_mem hc) _).append ?_
    have hsymbol := skips_symbol hother (not_mem_of_mem_take hgroup hop hm) g₂ hg₂
    have hplain : Marked.plain op.symbol ++ (Marked.plain g₂.text ++ topLevel right) =
        Marked.plain (op.symbol ++ g₂.text) ++ topLevel right := by
      rw [Marked.plain_append, List.append_assoc]
    rw [hplain]
    refine (hsymbol _).append (hright.skips other hm _ ?_)
    rw [Marked.text_plain, List.reverse_append, List.append_assoc, isSignPlace_gap,
      isSignPlace_symbol]
  shown := by
    intro c hc hm
    rw [topLevel_operation hleft.closed] at hm
    simp only [Marked.shown_append, Marked.shown_plain, List.mem_append] at hm
    rcases hm with hm | hm | hm | hm | hm
    · exact hleft.shown c hc hm
    · exact Phrase.not_isFiller hc (g₁.isFiller_of_mem hm)
    · exact not_mem_symbol (Phrase.mem_separators hc) op hm
    · exact Phrase.not_isFiller hc (g₂.isFiller_of_mem hm)
    · exact hright.shown c hc hm
  unsigned := fun htight => by cases htight

/-- The shape of a choice. -/
theorem Shape.choice {condition consequent alternate : Text} (g₁ g₂ g₃ g₄ : Gap)
    (hcondition : Shape (.operation 0) condition) (hconsequent : Shape (.operation 0) consequent)
    (halternate : Shape .choice alternate) :
    Shape .choice
      (condition ++ g₁.text ++ '?' ::
        (g₂.text ++ consequent ++ g₃.text ++ ':' :: (g₄.text ++ alternate))) where
  closed := (hcondition.closed.append g₁.closed).append ((closed_singleton rfl).append
    (((g₂.closed.append hconsequent.closed).append g₃.closed).append ((closed_singleton rfl).append
      (g₄.closed.append halternate.closed))))
  first := by
    obtain ⟨c, rest, rfl, hc⟩ := hcondition.first
    exact ⟨c, _, rfl, hc⟩
  last := by
    obtain ⟨front, c, rfl, hc⟩ := halternate.last
    exact ⟨condition ++ g₁.text ++ '?' :: (g₂.text ++ consequent ++ g₃.text ++ ':' ::
      (g₄.text ++ front)), c,
      by simp only [List.append_assoc, List.cons_append], hc⟩
  skips := fun group hm => absurd hm List.not_mem_nil
  shown := by
    intro c hc hm
    obtain rfl := List.mem_singleton.mp hc
    rw [topLevel_choice hcondition.closed hconsequent.closed] at hm
    simp only [Marked.shown_append, Marked.shown_plain, Marked.shown, if_true, List.mem_append,
      List.mem_cons, Char.reduceEq, false_or] at hm
    have hgap (gap : Gap) : ',' ∉ gap.text := gap.not_mem rfl
    have hinside : ',' ∈ (Phrase.operation 0).separators := .tail _ (.tail _ (.head _))
    simp only [hgap, hcondition.shown ',' hinside, hconsequent.shown ',' hinside,
      halternate.shown ',' hc, or_self] at hm
  unsigned := fun htight => by cases htight

/-! ## Derivations -/

/-- A text of digits or of a name has characters of names only, and at least one. -/
theorem exists_edges {text : Text} (hne : text ≠ []) (h : ∀ c ∈ text, isNamePart c = true) :
    (∃ c rest, text = c :: rest ∧ isNamePart c = true) ∧ ∃ front c, text = front ++ [c] ∧
      isNamePart c = true := by
  constructor
  · obtain ⟨c, rest, rfl⟩ := List.exists_cons_of_ne_nil hne
    exact ⟨c, rest, rfl, h c List.mem_cons_self⟩
  · obtain ⟨front, c, rfl⟩ := (List.eq_nil_or_concat' text).resolve_left hne
    exact ⟨front, c, rfl, h c List.mem_concat_self⟩

theorem isFiller_of_isNamePart {c : Char} (h : isNamePart c = true) : isFiller c = true := by
  simp only [isFiller, h, Bool.or_true, Bool.true_or]

/-- A name has characters of names only, and at least one. -/
theorem isNamePart_of_isName {name : Text} (h : isName name = true) :
    name ≠ [] ∧ ∀ c ∈ name, isNamePart c = true := by
  cases name with
  | nil => cases h
  | cons c rest =>
    rw [isName, Bool.and_eq_true] at h
    refine ⟨List.cons_ne_nil c rest, fun d hd => ?_⟩
    rcases List.mem_cons.mp hd with rfl | hd
    · simp only [isNamePart, h.1, Bool.true_or]
    · exact List.all_eq_true.mp h.2 d hd

/-- The shape of a name. -/
theorem shape_name {name : Text} (h : isName name = true) : Shape .path name := by
  obtain ⟨hne, hpart⟩ := isNamePart_of_isName h
  obtain ⟨hfirst, hlast⟩ := exists_edges hne hpart
  exact shape_filler .path (fun c hc => isFiller_of_isNamePart (hpart c hc)) hfirst hlast

/-- A run of digits is not empty, and digits are characters of names. -/
theorem isNamePart_of_isDigits {digits : Text} (h : Text.isDigits digits = true) :
    digits ≠ [] ∧ ∀ c ∈ digits, isNamePart c = true := by
  rw [Text.isDigits, Bool.and_eq_true, Bool.not_eq_true', List.isEmpty_eq_false_iff] at h
  refine ⟨h.1, fun c hc => ?_⟩
  simp only [isNamePart, List.all_eq_true.mp h.2 c hc, Bool.or_true]

/-- The arguments of a call are closed. -/
theorem closed_argumentList {arguments : List Argument}
    (h : ∀ argument ∈ arguments, Closed argument.text) :
    Closed (argumentList arguments) := by
  have hpadded (argument : Argument) (hclosed : Closed argument.text) : Closed argument.padded :=
    (argument.before.closed.append hclosed).append argument.after.closed
  induction arguments with
  | nil => exact closed_nil
  | cons argument rest ih =>
    have hfirst := hpadded argument (h argument List.mem_cons_self)
    have hrest := ih fun other hm => h other (List.mem_cons_of_mem _ hm)
    cases rest with
    | nil => exact hfirst
    | cons next rest => exact hfirst.append ((closed_singleton rfl).append hrest)

/-- A numeral without its sign is made of digits and a point. -/
theorem mem_numeral_cases {whole : Text} {fraction : Option Text} (hwhole : whole.isDigits = true)
    (hfraction : ∀ digits ∈ fraction, Text.isDigits digits = true) {c : Char}
    (hc : c ∈ numeral false whole fraction) : c.isDigit = true ∨ c = '.' := by
  have hdigit {digits : Text} (h : Text.isDigits digits = true) (hm : c ∈ digits) :
      c.isDigit = true := by
    rw [Text.isDigits, Bool.and_eq_true] at h
    exact List.all_eq_true.mp h.2 c hm
  simp only [numeral, Bool.false_eq_true, if_false, List.nil_append, List.mem_append] at hc
  rcases hc with hc | hc
  · exact .inl (hdigit hwhole hc)
  · cases fraction with
    | none => cases hc
    | some digits =>
      rcases List.mem_cons.mp hc with rfl | hc
      · exact .inr rfl
      · exact .inl (hdigit (hfraction digits rfl) hc)

/-- The characters of a numeral without its sign are fillers. -/
theorem isFiller_of_mem_numeral {whole : Text} {fraction : Option Text}
    (hwhole : whole.isDigits = true)
    (hfraction : ∀ digits ∈ fraction, Text.isDigits digits = true) :
    ∀ c ∈ numeral false whole fraction, isFiller c = true := by
  intro c hc
  rcases mem_numeral_cases hwhole hfraction hc with hdigit | rfl
  · simp only [isFiller, isNamePart, hdigit, Bool.or_true, Bool.true_or]
  · rfl

/-- A numeral without its sign starts with a digit. -/
theorem exists_numeral_eq_cons {whole : Text} (hwhole : whole.isDigits = true)
    (fraction : Option Text) :
    ∃ c rest, numeral false whole fraction = c :: rest ∧ c.isDigit = true := by
  rw [Text.isDigits, Bool.and_eq_true, Bool.not_eq_true', List.isEmpty_eq_false_iff] at hwhole
  obtain ⟨c, rest, rfl⟩ := List.exists_cons_of_ne_nil hwhole.1
  exact ⟨c, _, rfl, List.all_eq_true.mp hwhole.2 c List.mem_cons_self⟩

/-- A numeral ends with a digit. -/
theorem exists_numeral_eq_concat {whole : Text} {fraction : Option Text}
    (hwhole : whole.isDigits = true)
    (hfraction : ∀ digits ∈ fraction, Text.isDigits digits = true) :
    ∃ front c, numeral false whole fraction = front ++ [c] ∧ isNamePart c = true := by
  cases fraction with
  | none =>
    obtain ⟨hne, hpart⟩ := isNamePart_of_isDigits hwhole
    obtain ⟨front, c, rfl, hc⟩ := (exists_edges hne hpart).2
    exact ⟨front, c, List.append_nil _, hc⟩
  | some digits =>
    obtain ⟨hne, hpart⟩ := isNamePart_of_isDigits (hfraction digits rfl)
    obtain ⟨front, c, rfl, hc⟩ := (exists_edges hne hpart).2
    exact ⟨whole ++ '.' :: front, c, by simp [numeral], hc⟩

/-- The shape of a numeral. -/
theorem shape_numeral (negative : Bool) {whole : Text} {fraction : Option Text}
    (hwhole : whole.isDigits = true)
    (hfraction : ∀ digits ∈ fraction, Text.isDigits digits = true) :
    Shape .atom (numeral negative whole fraction) := by
  obtain ⟨c, rest, hcons, hdigit⟩ := exists_numeral_eq_cons hwhole fraction
  have hpart : isNamePart c = true := by simp only [isNamePart, hdigit, Bool.or_true]
  have hunsigned : Shape .atom (numeral false whole fraction) :=
    shape_filler .atom (isFiller_of_mem_numeral hwhole hfraction) ⟨c, rest, hcons, hpart⟩
      (exists_numeral_eq_concat hwhole hfraction)
  cases negative with
  | false => exact hunsigned
  | true =>
    refine hunsigned.prefixed ⟨[], rfl⟩ (Or.inr rfl) fun _ more => ?_
    rw [List.nil_append, hcons, List.cons_append, List.cons_append, splitUnary?, if_pos hdigit]

/-- A derivation gives its text the shape of the phrase. -/
theorem Derives.shape {phrase : Phrase} {text : Text} {tree : Expression}
    (h : Derives phrase text tree) :
    Shape phrase text := by
  induction h with
  | choice g₁ g₂ g₃ g₄ _ _ _ hcondition hconsequent halternate =>
    exact Shape.choice g₁ g₂ g₃ g₄ hcondition hconsequent halternate
  | ofOperation _ ih => exact ih.loosen (Nat.zero_le _) (by decide) id
  | operation g₁ g₂ hgroup hop _ hg₂ _ _ hleft hright =>
    exact Shape.operation g₁ g₂ hgroup hop hg₂ hleft hright
  | ofTighter _ ih => exact ih.loosen (Nat.le_succ _) (List.Subset.refl _) id
  | ofSigned _ ih => exact ih.loosen (Nat.le_refl _) (List.Subset.refl _) id
  | not gap _ ih => exact ih.prefixed gap (Or.inl rfl) fun htight => by cases htight
  | negate gap _ _ ih => exact ih.prefixed gap (Or.inr rfl) fun htight => by cases htight
  | ofCalled _ ih =>
    exact ih.loosen (Nat.le_refl _) (List.Subset.refl _) fun htight => by cases htight
  | call gap _ _ _ hcallee harguments =>
    have hclosed := closed_argumentList fun argument hm => (harguments argument hm).closed
    rw [List.append_assoc]
    exact hcallee.append (trailing_parenthesized gap hclosed)
  | callEmpty gap inner _ hcallee =>
    rw [List.append_assoc]
    exact hcallee.append (trailing_parenthesized gap inner.closed)
  | ofAtom _ ih => exact ih.loosen (Nat.le_refl _) (List.Subset.refl _) id
  | @group inner _ g₁ g₂ _ ih =>
    have hclosed := (g₁.closed.append ih.closed).append g₂.closed
    refine shape_hidden (closed_parenthesized hclosed) (topLevel_parenthesized hclosed)
      ⟨'(', _, rfl, rfl⟩ ?_
    exact ⟨'(' :: (g₁.text ++ inner ++ g₂.text), ')', rfl, rfl⟩
  | truth value =>
    cases value with
    | true =>
      exact shape_filler .atom (List.all_eq_true.mp rfl) ⟨'t', _, rfl, rfl⟩
        ⟨['t', 'r', 'u'], 'e', rfl, rfl⟩
    | false =>
      exact shape_filler .atom (List.all_eq_true.mp rfl) ⟨'f', _, rfl, rfl⟩ ⟨['f', 'a', 'l', 's'],
        'e', rfl, rfl⟩
  | number negative hwhole hfraction => exact shape_numeral negative hwhole hfraction
  | @string quote content hquote hcontent hescape =>
    refine shape_hidden (closed_quoted hquote hcontent hescape)
      (topLevel_quoted hquote hcontent hescape)
      ⟨quote, _, rfl, ?_⟩ ⟨quote :: content, quote, rfl, ?_⟩
    · rw [hquote, Bool.true_or]
    · simp only [isOperandEnd, hquote, Bool.or_true, Bool.true_or]
  | ofPath _ ih => exact ih.loosen (Nat.le_refl _) (List.Subset.refl _) id
  | name hname _ => exact shape_name hname
  | @property object name _ g₁ g₂ hname _ ih =>
    obtain ⟨hne, hpart⟩ := isNamePart_of_isName hname
    obtain ⟨front, c, rfl, hc⟩ := (exists_edges hne hpart).2
    have hfiller : ∀ d ∈ g₁.text ++ '.' :: (g₂.text ++ (front ++ [c])), isFiller d = true := by
      intro d hd
      rw [List.mem_append, List.mem_cons, List.mem_append] at hd
      rcases hd with hd | rfl | hd | hd
      · exact g₁.isFiller_of_mem hd
      · rfl
      · exact g₂.isFiller_of_mem hd
      · exact isFiller_of_isNamePart (hpart d hd)
    rw [List.append_assoc]
    refine ih.append (trailing_filler hfiller ⟨g₁.text ++ '.' :: (g₂.text ++ front), c, ?_, hc⟩)
    simp only [List.append_assoc, List.cons_append]

end ComponentFile.Expression
