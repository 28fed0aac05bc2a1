import ComponentFile.Expression.Form

/-!
# Closed pieces of expression text

A piece of expression text is closed when reading it leaves no string literal and no bracket open.
What follows a closed piece is then read as if it stood alone, so the marks of a text are those of
its pieces put together.
-/

namespace ComponentFile.Expression

namespace Marked

/-- The characters with a mark. -/
def shown : Marked → Text
  | [] => []
  | (c, mark) :: rest => if mark then c :: shown rest else shown rest

/-- All characters without a mark. -/
def hidden (text : Text) : Marked := text.map fun c => (c, false)

/-- All characters with a mark. -/
def plain (text : Text) : Marked := text.map fun c => (c, true)

@[simp] theorem text_append (left right : Marked) :
    text (left ++ right) = text left ++ text right :=
  List.map_append

@[simp] theorem text_hidden (piece : Text) : text (hidden piece) = piece := by
  simp [text, hidden, Function.comp_def]

@[simp] theorem text_plain (piece : Text) : text (plain piece) = piece := by
  simp [text, plain, Function.comp_def]

theorem plain_append (left right : Text) : plain (left ++ right) = plain left ++ plain right :=
  List.map_append

/-- The first character of a text has a mark or not. -/
theorem exists_eq_cons {marked : Marked} {c : Char} {rest : Text} (h : text marked = c :: rest) :
    ∃ mark tail, marked = (c, mark) :: tail := by
  cases marked with
  | nil => cases h
  | cons head tail =>
    obtain ⟨d, mark⟩ := head
    obtain ⟨rfl, -⟩ := List.cons.inj h
    exact ⟨mark, tail, rfl⟩

@[simp] theorem shown_append (left right : Marked) :
    shown (left ++ right) = shown left ++ shown right := by
  induction left with
  | nil => rfl
  | cons head left ih =>
    obtain ⟨c, mark⟩ := head
    cases mark with
    | false => exact ih
    | true => exact congrArg (c :: ·) ih

@[simp] theorem shown_hidden (piece : Text) : shown (hidden piece) = [] := by
  induction piece with
  | nil => rfl
  | cons c piece ih => exact ih

@[simp] theorem shown_plain (piece : Text) : shown (plain piece) = piece := by
  induction piece with
  | nil => rfl
  | cons c piece ih => exact congrArg (c :: ·) ih

/-- A target that is not marked is not marked at the first character and not in the rest. -/
theorem not_mem_shown_cons {target c : Char} {mark : Bool} {rest : Marked}
    (h : target ∉ shown ((c, mark) :: rest)) :
    (mark && c == target) = false ∧ target ∉ shown rest := by
  cases mark with
  | false => exact ⟨rfl, h⟩
  | true =>
    rw [shown, if_pos rfl, List.mem_cons, not_or] at h
    exact ⟨beq_eq_false_iff_ne.mpr (Ne.symm h.1), h.2⟩

/-- A cut is made after the characters in which the target is not marked. -/
theorem cut?_append {target : Char} {left : Marked} (h : target ∉ shown left) (right : Marked) :
    cut? target (left ++ right) = (cut? target right).map fun (before, after) =>
      (text left ++ before, after) := by
  induction left with
  | nil => exact Option.map_id'.symm
  | cons head left ih =>
    obtain ⟨c, mark⟩ := head
    obtain ⟨hne, hrest⟩ := not_mem_shown_cons h
    rw [List.cons_append, cut?, hne, if_neg Bool.false_ne_true, ih hrest, Option.map_map]
    rfl

/-- No cut is made where the target is not marked. -/
theorem cut?_eq_none {target : Char} {marked : Marked} (h : target ∉ shown marked) :
    cut? target marked = none := by
  have hcut := cut?_append h []
  rwa [List.append_nil] at hcut

/-- A cut is made at the first marked target. -/
theorem cut?_append_cons {target : Char} {left : Marked} (h : target ∉ shown left)
    (right : Marked) :
    cut? target (left ++ (target, true) :: right) = some (text left, right) := by
  have hfound : cut? target ((target, true) :: right) = some ([], right) := by
    rw [cut?, Bool.true_and, beq_self_eq_true, if_pos rfl]
  rw [cut?_append h, hfound]
  exact congrArg (fun before => some (before, right)) (List.append_nil _)

/-- Characters in which the target is not marked belong to the first piece. -/
theorem pieces_append {target : Char} {left : Marked} (h : target ∉ shown left) (right : Marked) :
    ∃ first others, pieces target right = first :: others ∧
      pieces target (left ++ right) = (text left ++ first) :: others := by
  induction left with
  | nil =>
    have hne : pieces target right ≠ [] := by
      cases right with
      | nil => exact List.cons_ne_nil _ _
      | cons head right =>
        obtain ⟨c, mark⟩ := head
        rw [pieces]
        split
        · exact List.cons_ne_nil _ _
        · split <;> exact List.cons_ne_nil _ _
    obtain ⟨first, others, he⟩ := List.exists_cons_of_ne_nil hne
    exact ⟨first, others, he, he⟩
  | cons head left ih =>
    obtain ⟨c, mark⟩ := head
    obtain ⟨hne, hrest⟩ := not_mem_shown_cons h
    obtain ⟨first, others, he, hall⟩ := ih hrest
    refine ⟨first, others, he, ?_⟩
    rw [List.cons_append, pieces, hne, if_neg Bool.false_ne_true, hall]
    rfl

/-- Where the target is not marked there is one piece. -/
theorem pieces_eq_singleton {target : Char} {marked : Marked} (h : target ∉ shown marked) :
    pieces target marked = [text marked] := by
  obtain ⟨first, others, he, hall⟩ := pieces_append h []
  obtain ⟨rfl, rfl⟩ := List.cons.inj (show [[]] = first :: others from he)
  rwa [List.append_nil, List.append_nil] at hall

/-- A marked target ends a piece. -/
theorem pieces_append_cons {target : Char} {left : Marked} (h : target ∉ shown left)
    (right : Marked) :
    pieces target (left ++ (target, true) :: right) = text left :: pieces target right := by
  obtain ⟨first, others, he, hall⟩ := pieces_append h ((target, true) :: right)
  rw [pieces, Bool.true_and, beq_self_eq_true, if_pos rfl] at he
  obtain ⟨rfl, rfl⟩ := List.cons.inj he
  rw [hall, List.append_nil]

end Marked

/-! ## Closed pieces -/

/-- What follows the text is read as if it stood alone. -/
structure Closed (text : Text) : Prop where
  /-- No string literal is left open. -/
  code_append : ∀ rest, code (text ++ rest) = code text ++ code rest
  /-- No bracket is left open. -/
  atDepth_append : ∀ depth rest,
    atDepth depth (code text ++ rest) = atDepth depth (code text) ++ atDepth depth rest
  /-- In a bracket nothing is at the top level. -/
  atDepth_of_pos : ∀ depth, 0 < depth → atDepth depth (code text) = Marked.hidden text
  /-- Parentheses are paired among themselves. -/
  parensFrom_append : ∀ position waiting rest, ∃ pairs : List (Nat × Nat),
    (∀ pair ∈ pairs, pair.2 < position + text.length) ∧
      parensFrom position waiting (code text ++ rest) =
        pairs ++ parensFrom (position + text.length) waiting rest

theorem closed_nil : Closed [] where
  code_append := fun _ => rfl
  atDepth_append := fun _ _ => rfl
  atDepth_of_pos := fun _ _ => rfl
  parensFrom_append := fun _ _ _ => ⟨[], fun _ hm => absurd hm List.not_mem_nil, rfl⟩

/-- Closed pieces can be put together. -/
theorem Closed.append {left right : Text} (hleft : Closed left) (hright : Closed right) :
    Closed (left ++ right) where
  code_append := by
    intro rest
    rw [List.append_assoc, hleft.code_append, hright.code_append, hleft.code_append,
      List.append_assoc]
  atDepth_append := by
    intro depth rest
    rw [hleft.code_append, List.append_assoc, hleft.atDepth_append, hright.atDepth_append,
      hleft.atDepth_append, List.append_assoc]
  atDepth_of_pos := by
    intro depth hpos
    rw [hleft.code_append, hleft.atDepth_append, hleft.atDepth_of_pos depth hpos,
      hright.atDepth_of_pos depth hpos]
    exact List.map_append.symm
  parensFrom_append := by
    intro position waiting rest
    obtain ⟨first, hfirst, hparens⟩ := hleft.parensFrom_append position waiting (code right ++ rest)
    obtain ⟨second, hsecond, hmore⟩ :=
      hright.parensFrom_append (position + left.length) waiting rest
    refine ⟨first ++ second, fun pair hm => ?_, ?_⟩
    · rw [List.length_append]
      rcases List.mem_append.mp hm with hm | hm
      · have hlt := hfirst pair hm
        omega
      · have hlt := hsecond pair hm
        omega
    · rw [hleft.code_append, List.append_assoc, hparens, hmore, List.length_append,
        List.append_assoc, Nat.add_assoc]

/-- The character is neither a quote nor a bracket. -/
def isPlain (c : Char) : Bool := !(isQuote c || isOpener c || isCloser c)

/-- A character other than a quote is code. -/
theorem code_cons {c : Char} (h : isQuote c = false) (rest : Text) :
    code (c :: rest) = (c, true) :: code rest := by
  have hnext : Quoting.next .code c = .code := by
    rw [Quoting.next, h, if_neg Bool.false_ne_true]
  rw [code, codeFrom, hnext]
  rfl

section

variable {c : Char} (h : isPlain c = true)

include h

theorem isQuote_of_isPlain : isQuote c = false := by
  rw [isPlain, Bool.not_eq_true', Bool.or_eq_false_iff, Bool.or_eq_false_iff] at h
  exact h.1.1

/-- A plain character does not change the depth. -/
theorem atDepth_cons (depth : Int) (rest : Marked) :
    atDepth depth ((c, true) :: rest) = (c, depth == 0) :: atDepth depth rest := by
  rw [isPlain, Bool.not_eq_true', Bool.or_eq_false_iff, Bool.or_eq_false_iff] at h
  obtain ⟨⟨-, hopener⟩, hcloser⟩ := h
  rw [atDepth, hopener, hcloser]
  rfl

/-- A plain character is no parenthesis. -/
theorem parensFrom_cons (position : Nat) (waiting : List Nat) (rest : Marked) :
    parensFrom position waiting ((c, true) :: rest) = parensFrom (position + 1) waiting rest := by
  have hopening : (c == '(') = false := by
    refine beq_eq_false_iff_ne.mpr ?_
    rintro rfl
    cases h
  have hclosing : (c == ')') = false := by
    refine beq_eq_false_iff_ne.mpr ?_
    rintro rfl
    cases h
  simp only [parensFrom, hopening, hclosing, Bool.and_false, Bool.false_eq_true, if_false]

end

/-- A plain character is closed. -/
theorem closed_singleton {c : Char} (h : isPlain c = true) : Closed [c] where
  code_append := fun rest => by
    rw [List.singleton_append, code_cons (isQuote_of_isPlain h), code_cons (isQuote_of_isPlain h)]
    rfl
  atDepth_append := fun depth rest => by
    rw [code_cons (isQuote_of_isPlain h), List.cons_append, atDepth_cons h, atDepth_cons h]
    rfl
  atDepth_of_pos := fun depth hpos => by
    rw [code_cons (isQuote_of_isPlain h), atDepth_cons h,
      beq_eq_false_iff_ne.mpr (Int.ne_of_gt hpos)]
    rfl
  parensFrom_append := fun position waiting rest => by
    refine ⟨[], fun _ hm => absurd hm List.not_mem_nil, ?_⟩
    rw [code_cons (isQuote_of_isPlain h), List.cons_append, parensFrom_cons h]
    rfl

/-- Plain characters are closed, and all at the top level. -/
theorem closed_of_isPlain {text : Text} (h : ∀ c ∈ text, isPlain c = true) : Closed text := by
  induction text with
  | nil => exact closed_nil
  | cons c text ih =>
    exact (closed_singleton (h c List.mem_cons_self)).append
      (ih fun d hd => h d (List.mem_cons_of_mem _ hd))

/-- The marks of a text are those of its closed pieces. -/
theorem Closed.topLevel_append {left : Text} (h : Closed left) (right : Text) :
    topLevel (left ++ right) = topLevel left ++ topLevel right := by
  rw [topLevel, h.code_append, h.atDepth_append]
  rfl

/-- Plain characters are at the top level. -/
theorem topLevel_of_isPlain {text : Text} (h : ∀ c ∈ text, isPlain c = true) :
    topLevel text = Marked.plain text := by
  induction text with
  | nil => rfl
  | cons c text ih =>
    have hc := h c List.mem_cons_self
    rw [← List.singleton_append, (closed_singleton hc).topLevel_append,
      ih fun d hd => h d (List.mem_cons_of_mem _ hd), topLevel, code_cons (isQuote_of_isPlain hc),
      atDepth_cons hc]
    rfl

/-- A plain character is at the top level, and what follows it is read as if it stood alone. -/
theorem topLevel_cons {c : Char} (h : isPlain c = true) (rest : Text) :
    topLevel (c :: rest) = (c, true) :: topLevel rest := by
  have hone := (closed_singleton h).topLevel_append rest
  rwa [topLevel_of_isPlain (fun d hd => List.mem_singleton.mp hd ▸ h)] at hone

/-- Plain characters hold no parentheses. -/
theorem matchingParens_of_isPlain {text : Text} (h : ∀ c ∈ text, isPlain c = true) :
    matchingParens text = [] := by
  have hnone (position : Nat) : parensFrom position [] (code text) = [] := by
    induction text generalizing position with
    | nil => rfl
    | cons c text ih =>
      have hc := h c List.mem_cons_self
      rw [code_cons (isQuote_of_isPlain hc), parensFrom_cons hc]
      exact ih (fun d hd => h d (List.mem_cons_of_mem _ hd)) (position + 1)
  exact hnone 0

/-! ## String literals -/

/-- The rest of a string literal without escapes is no code. -/
theorem codeFrom_inside {quote : Char} (hquote : isQuote quote = true) {content : Text}
    (hcontent : quote ∉ content) (hescape : '\\' ∉ content) (rest : Text) :
    codeFrom (.inside quote) (content ++ quote :: rest) =
      Marked.hidden (content ++ [quote]) ++ code rest := by
  induction content with
  | nil =>
    have hne : quote ≠ '\\' := by
      rintro rfl
      cases hquote
    have hnext : Quoting.next (.inside quote) quote = .code := by
      rw [Quoting.next, if_neg hne, if_pos rfl]
    rw [List.nil_append, codeFrom, hnext]
    rfl
  | cons c content ih =>
    rw [List.mem_cons, not_or] at hcontent hescape
    have hnext : Quoting.next (.inside quote) c = .inside quote := by
      rw [Quoting.next, if_neg (Ne.symm hescape.1), if_neg (Ne.symm hcontent.1)]
    rw [List.cons_append, codeFrom, hnext, ih hcontent.2 hescape.2]
    rfl

/-- The text of a string literal. -/
def quoted (quote : Char) (content : Text) : Text := quote :: (content ++ [quote])

section

variable {quote : Char} (hquote : isQuote quote = true) {content : Text}
variable (hcontent : quote ∉ content) (hescape : '\\' ∉ content)

include hquote hcontent hescape

/-- A string literal without escapes is no code. -/
theorem code_quoted_append (rest : Text) :
    code (quoted quote content ++ rest) = Marked.hidden (quoted quote content) ++ code rest := by
  have hnext : Quoting.next .code quote = .inside quote := by
    rw [Quoting.next, hquote, if_pos rfl]
  rw [quoted, List.cons_append, List.append_assoc, code, codeFrom, hnext, List.singleton_append,
    codeFrom_inside hquote hcontent hescape]
  rfl

theorem code_quoted : code (quoted quote content) = Marked.hidden (quoted quote content) := by
  have hcode := code_quoted_append hquote hcontent hescape []
  rwa [List.append_nil, show code [] = [] from rfl, List.append_nil] at hcode

end

/-- Characters that are no code have no depth. -/
theorem atDepth_hidden_append (depth : Int) (piece : Text) (rest : Marked) :
    atDepth depth (Marked.hidden piece ++ rest) = Marked.hidden piece ++ atDepth depth rest := by
  induction piece with
  | nil => rfl
  | cons c piece ih => exact congrArg ((c, false) :: ·) ih

theorem atDepth_hidden (depth : Int) (piece : Text) :
    atDepth depth (Marked.hidden piece) = Marked.hidden piece := by
  have happend := atDepth_hidden_append depth piece []
  rwa [List.append_nil, atDepth, List.append_nil] at happend

/-- Characters that are no code are no parentheses. -/
theorem parensFrom_hidden_append (position : Nat) (waiting : List Nat) (piece : Text)
    (rest : Marked) :
    parensFrom position waiting (Marked.hidden piece ++ rest) =
      parensFrom (position + piece.length) waiting rest := by
  induction piece generalizing position with
  | nil => rfl
  | cons c piece ih =>
    rw [List.length_cons, Nat.add_comm piece.length, ← Nat.add_assoc]
    exact ih (position + 1)

/-- A piece that is no code, whatever follows, is closed. -/
theorem closed_of_hidden {piece : Text}
    (h : ∀ rest, code (piece ++ rest) = Marked.hidden piece ++ code rest) :
    Closed piece := by
  have hcode : code piece = Marked.hidden piece := by
    have hnil := h []
    rwa [List.append_nil, show code [] = [] from rfl, List.append_nil] at hnil
  constructor
  · intro rest
    rw [h, hcode]
  · intro depth rest
    rw [hcode, atDepth_hidden_append, atDepth_hidden]
  · intro depth _
    rw [hcode, atDepth_hidden]
  · intro position waiting rest
    refine ⟨[], fun _ hm => absurd hm List.not_mem_nil, ?_⟩
    rw [hcode, parensFrom_hidden_append, List.nil_append]

section

variable {quote : Char} (hquote : isQuote quote = true) {content : Text}
variable (hcontent : quote ∉ content) (hescape : '\\' ∉ content)

include hquote hcontent hescape

/-- A string literal is closed. -/
theorem closed_quoted : Closed (quoted quote content) :=
  closed_of_hidden (code_quoted_append hquote hcontent hescape)

/-- Nothing of a string literal is at the top level. -/
theorem topLevel_quoted :
    topLevel (quoted quote content) = Marked.hidden (quoted quote content) := by
  rw [topLevel, code_quoted hquote hcontent hescape, atDepth_hidden]

/-- A string literal holds no parentheses. -/
theorem matchingParens_quoted : matchingParens (quoted quote content) = [] := by
  have hparens := parensFrom_hidden_append 0 [] (quoted quote content) []
  rw [List.append_nil] at hparens
  rw [matchingParens, code_quoted hquote hcontent hescape, hparens, parensFrom]

end

/-! ## Parentheses -/

/-- The text in a pair of parentheses. -/
def parenthesized (inner : Text) : Text := '(' :: (inner ++ [')'])

section

variable {inner : Text} (h : Closed inner)

include h

theorem code_parenthesized_append (rest : Text) :
    code (parenthesized inner ++ rest) =
      ('(', true) :: (code inner ++ (')', true) :: code rest) := by
  rw [parenthesized, List.cons_append, List.append_assoc, code_cons rfl, h.code_append,
    List.singleton_append, code_cons rfl]

theorem code_parenthesized :
    code (parenthesized inner) = ('(', true) :: (code inner ++ [(')', true)]) := by
  have hcode := code_parenthesized_append h []
  rwa [List.append_nil] at hcode

/-- The closing parenthesis leads back to the depth of the opening one. -/
theorem atDepth_parenthesized_append (depth : Int) (rest : Marked) :
    atDepth depth (('(', true) :: (code inner ++ (')', true) :: rest)) =
      ('(', false) :: (atDepth (depth + 1) (code inner) ++ (')', false) :: atDepth depth rest) := by
  have hclosing : atDepth (depth + 1) ((')', true) :: rest) =
      (')', false) :: atDepth depth rest := by
    have hcloser : atDepth (depth + 1) ((')', true) :: rest) =
        (')', false) :: atDepth (depth + 1 - 1) rest := rfl
    rw [hcloser, Int.add_sub_cancel]
  have hopener : atDepth depth (('(', true) :: (code inner ++ (')', true) :: rest)) =
      ('(', false) :: atDepth (depth + 1) (code inner ++ (')', true) :: rest) := rfl
  rw [hopener, h.atDepth_append, hclosing]

theorem atDepth_parenthesized {depth : Int} (hdepth : 0 ≤ depth) :
    atDepth depth (code (parenthesized inner)) = Marked.hidden (parenthesized inner) := by
  rw [code_parenthesized h, atDepth_parenthesized_append h,
    h.atDepth_of_pos (depth + 1) (by omega), atDepth]
  simp only [Marked.hidden, parenthesized, List.map_cons, List.map_append, List.map_nil]

/-- The two parentheses are a pair, which comes after the pairs between them. -/
theorem exists_parensFrom_parenthesized (position : Nat) (waiting : List Nat) (rest : Marked) :
    ∃ pairs : List (Nat × Nat), (∀ pair ∈ pairs, pair.2 < position + inner.length + 1) ∧
      parensFrom position waiting (code (parenthesized inner) ++ rest) =
        pairs ++ (position, position + inner.length + 1) ::
          parensFrom (position + inner.length + 2) waiting rest := by
  obtain ⟨pairs, hpairs, hparens⟩ :=
    h.parensFrom_append (position + 1) (position :: waiting) ((')', true) :: rest)
  refine ⟨pairs, fun pair hm => ?_, ?_⟩
  · have hlt := hpairs pair hm
    omega
  · have hplace : position + 1 + inner.length = position + inner.length + 1 := by omega
    rw [hplace] at hparens
    rw [code_parenthesized h, List.cons_append, List.append_assoc, List.singleton_append]
    exact hparens

/-- A closed text in parentheses is closed. -/
theorem closed_parenthesized : Closed (parenthesized inner) where
  code_append := fun rest => by
    rw [code_parenthesized_append h, code_parenthesized h, List.cons_append, List.append_assoc]
    rfl
  atDepth_append := fun depth rest => by
    rw [code_parenthesized h, List.cons_append, List.append_assoc, List.singleton_append,
      atDepth_parenthesized_append h, atDepth_parenthesized_append h, atDepth, List.cons_append,
      List.append_assoc]
    rfl
  atDepth_of_pos := fun depth hpos => atDepth_parenthesized h (Int.le_of_lt hpos)
  parensFrom_append := fun position waiting rest => by
    obtain ⟨pairs, hpairs, hparens⟩ := exists_parensFrom_parenthesized h position waiting rest
    have hlength : (parenthesized inner).length = inner.length + 2 := by
      rw [parenthesized, List.length_cons, List.length_append, List.length_singleton]
    refine ⟨pairs ++ [(position, position + inner.length + 1)], fun pair hm => ?_, ?_⟩
    · rw [hlength]
      rcases List.mem_append.mp hm with hm | hm
      · have hlt := hpairs pair hm
        omega
      · rw [List.mem_singleton.mp hm]
        omega
    · rw [hparens, hlength, List.append_assoc]
      rfl

/-- Nothing in parentheses is at the top level. -/
theorem topLevel_parenthesized :
    topLevel (parenthesized inner) = Marked.hidden (parenthesized inner) :=
  atDepth_parenthesized h (Int.le_refl 0)

end

end ComponentFile.Expression
