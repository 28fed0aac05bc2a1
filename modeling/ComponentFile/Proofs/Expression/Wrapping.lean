import ComponentFile.Proofs.Expression.Forms

/-!
# Redundant parentheses

A text is nested when its string literals are closed and its brackets, of all three kinds, match
each other outside of them. Two scanners read such a text: one counts a single depth for all
brackets, the other pairs round parentheses only. They agree on nested text, so parentheses around
it are taken off again and change nothing, whether the text is an expression or not.
-/

namespace ComponentFile.Expression

/-- The text between two quotes: a backslash goes with the character after it, and no other
character is the quote. -/
inductive StringContent (quote : Char) : Text → Prop
  | nil : StringContent quote []
  | char {c : Char} {rest : Text} (hquote : c ≠ quote) (hescape : c ≠ '\\')
      (hrest : StringContent quote rest) :
      StringContent quote (c :: rest)
  | escape (c : Char) {rest : Text} (hrest : StringContent quote rest) :
      StringContent quote ('\\' :: c :: rest)

/-- The opening and the closing bracket of one kind. -/
inductive Brackets : Char → Char → Prop
  | round : Brackets '(' ')'
  | square : Brackets '[' ']'
  | curly : Brackets '\x7b' '\x7d'

/-- Outside of string literals, which are all closed, every bracket has its partner. -/
inductive Nested : Text → Prop
  | nil : Nested []
  | char {c : Char} {rest : Text} (hplain : isPlain c = true) (hrest : Nested rest) :
      Nested (c :: rest)
  | string {quote : Char} {content rest : Text} (hquote : isQuote quote = true)
      (hcontent : StringContent quote content) (hrest : Nested rest) :
        Nested (quoted quote content ++ rest)
  | bracket {opener closer : Char} {inner rest : Text} (hkind : Brackets opener closer)
      (hinner : Nested inner)
      (hrest : Nested rest) : Nested (opener :: (inner ++ closer :: rest))

/-! ## String literals with escapes -/

/-- The rest of a string literal is no code. -/
theorem StringContent.codeFrom_inside {quote : Char} (hquote : isQuote quote = true)
    {content : Text} (h : StringContent quote content) (rest : Text) :
    codeFrom (.inside quote) (content ++ quote :: rest) =
      Marked.hidden (content ++ [quote]) ++ code rest := by
  induction h with
  | nil => exact Expression.codeFrom_inside hquote List.not_mem_nil List.not_mem_nil rest
  | @char c _ hne hescape _ ih =>
    have hnext : Quoting.next (.inside quote) c = .inside quote := by
      rw [Quoting.next, if_neg hescape, if_neg hne]
    rw [List.cons_append, codeFrom, hnext, ih]
    rfl
  | escape c _ ih =>
    -- the character after the backslash is passed over, be it the quote or another backslash
    have hbackslash : Quoting.next (.inside quote) '\\' = .escaped quote := by
      rw [Quoting.next, if_pos rfl]
    rw [List.cons_append, List.cons_append, codeFrom, hbackslash, codeFrom, Quoting.next, ih]
    rfl

/-- A string literal is closed, also with escapes in it. -/
theorem StringContent.closed {quote : Char} (hquote : isQuote quote = true) {content : Text}
    (h : StringContent quote content) : Closed (quoted quote content) := by
  apply closed_of_hidden
  intro rest
  have hnext : Quoting.next .code quote = .inside quote := by
    rw [Quoting.next, hquote, if_pos rfl]
  rw [quoted, List.cons_append, List.append_assoc, code, codeFrom, hnext, List.singleton_append,
    h.codeFrom_inside hquote]
  rfl

/-! ## Brackets of all kinds -/

section

variable {opener closer : Char} (hopener : isQuote opener = false)
  (hcloser : isQuote closer = false)
variable (hup : ∀ depth rest, atDepth depth ((opener, true) :: rest) = (opener, false) ::
  atDepth (depth + 1) rest)
variable (hdown : ∀ depth rest, atDepth depth ((closer, true) :: rest) = (closer, false) ::
  atDepth (depth - 1) rest)
variable (hfirst : ∀ position waiting rest,
  parensFrom position waiting ((opener, true) :: rest) = parensFrom (position + 1) waiting rest)
variable (hlast : ∀ position waiting rest,
  parensFrom position waiting ((closer, true) :: rest) = parensFrom (position + 1) waiting rest)

include hopener hcloser hup hdown hfirst hlast

/-- Brackets that count for the depth and are no parentheses leave a closed text closed. -/
private theorem closed_enclosed {inner : Text} (h : Closed inner) :
    Closed (opener :: (inner ++ [closer])) := by
  have hcode (rest : Text) : code (opener :: (inner ++ [closer]) ++ rest) =
      (opener, true) :: (code inner ++ (closer, true) :: code rest) := by
    rw [List.cons_append, List.append_assoc, code_cons hopener, h.code_append,
      List.singleton_append, code_cons hcloser]
  have hwhole : code (opener :: (inner ++ [closer])) =
      (opener, true) :: (code inner ++ [(closer, true)]) := by
    have hnil := hcode []
    rwa [List.append_nil] at hnil
  -- the closing bracket leads back to the depth of the opening one
  have hdepth (depth : Int) (rest : Marked) :
      atDepth depth ((opener, true) :: (code inner ++ (closer, true) :: rest)) =
        (opener, false) :: (atDepth (depth + 1) (code inner) ++ (closer, false) ::
          atDepth depth rest) := by
    rw [hup, h.atDepth_append, hdown, Int.add_sub_cancel]
  constructor
  · intro rest
    rw [hcode, hwhole, List.cons_append, List.append_assoc, List.singleton_append]
  · intro depth rest
    rw [hwhole, List.cons_append, List.append_assoc, List.singleton_append, hdepth, hdepth, atDepth,
      List.cons_append, List.append_assoc, List.singleton_append]
  · intro depth hpos
    rw [hwhole, hdepth, h.atDepth_of_pos (depth + 1) (by omega), atDepth]
    simp only [Marked.hidden, List.map_cons, List.map_append, List.map_nil]
  · intro position waiting rest
    obtain ⟨pairs, hpairs, hparens⟩ :=
      h.parensFrom_append (position + 1) waiting ((closer, true) :: rest)
    have hlength : (opener :: (inner ++ [closer])).length = inner.length + 2 := by
      rw [List.length_cons, List.length_append, List.length_singleton]
    refine ⟨pairs, fun pair hm => ?_, ?_⟩
    · have hlt := hpairs pair hm
      omega
    · have hplace : position + 1 + inner.length + 1 = position + (inner.length + 2) := by omega
      rw [hwhole, List.cons_append, List.append_assoc, List.singleton_append, hfirst, hparens,
        hlast, hlength, hplace]

end

/-- Brackets of one kind around a closed text leave it closed. -/
theorem Brackets.closed {opener closer : Char} (hkind : Brackets opener closer) {inner : Text}
    (h : Closed inner) :
    Closed (opener :: (inner ++ [closer])) := by
  cases hkind with
  | round => exact closed_parenthesized h
  | square | curly =>
    exact closed_enclosed rfl rfl (fun _ _ => rfl) (fun _ _ => rfl) (fun _ _ _ => rfl)
      (fun _ _ _ => rfl) h

/-- Both scanners leave nothing open in nested text. -/
theorem Nested.closed {text : Text} (h : Nested text) : Closed text := by
  induction h with
  | nil => exact closed_nil
  | char hplain _ ih => exact (closed_singleton hplain).append ih
  | string hquote hcontent _ ih => exact (hcontent.closed hquote).append ih
  | @bracket opener closer inner rest hkind _ _ ihinner ihrest =>
    have hclosed := (hkind.closed ihinner).append ihrest
    rwa [List.cons_append, List.append_assoc, List.singleton_append] at hclosed

/-! ## Taking parentheses off -/

private theorem trim_parenthesized (inner : Text) :
    Text.trim (parenthesized inner) = parenthesized inner := by
  apply Text.trim_eq_self
  · intro c hc
    rw [← Option.some.inj hc]
    rfl
  · intro c hc
    rw [parenthesized, ← List.cons_append, List.getLast?_concat] at hc
    rw [← Option.some.inj hc]
    rfl

/-- Parentheses around a closed text are read as if they were not there. -/
theorem parse_parenthesized {text : Text} (h : Closed text) :
    parse (parenthesized text) = parse text := by
  rw [parse_eq, trim_parenthesized, formOf_parenthesized h, Form.tree]

/-- Nested text in parentheses is nested. -/
theorem Nested.parenthesized {text : Text} (h : Nested text) : Nested (parenthesized text) :=
  .bracket .round h .nil

theorem Nested.iterate_parenthesized {text : Text} (h : Nested text) (count : Nat) :
    Nested (Expression.parenthesized^[count] text) := by
  induction count with
  | zero => exact h
  | succ count ih =>
    rw [Function.iterate_succ_apply']
    exact ih.parenthesized

/-- However many pairs of parentheses stand around a nested text, it is read as if there were
none. -/
theorem parse_iterate_parenthesized {text : Text} (h : Nested text) (count : Nat) :
    parse (parenthesized^[count] text) = parse text := by
  induction count with
  | zero => rfl
  | succ count ih =>
    rw [Function.iterate_succ_apply', parse_parenthesized (h.iterate_parenthesized count).closed,
      ih]

/-- The malformed text `*["\")"]{?}`, with a parenthesis behind an escaped quote, in two pairs of
parentheses. -/
theorem parse_iterate_parenthesized_malformed :
    parse ['(', '(', '*', '[', '"', '\\', '"', ')', '"', ']', '\x7b', '?', '\x7d', ')', ')'] =
      parse ['*', '[', '"', '\\', '"', ')', '"', ']', '\x7b', '?', '\x7d'] := by
  have hcontent : StringContent '"' ['\\', '"', ')'] :=
    .escape '"' (.char (by decide) (by decide) .nil)
  have hstring : Nested (quoted '"' ['\\', '"', ')'] ++ []) := .string rfl hcontent .nil
  have hmark : Nested ['?'] := .char rfl .nil
  have hcurly : Nested ['\x7b', '?', '\x7d'] := .bracket .curly hmark .nil
  have hnested : Nested ['*', '[', '"', '\\', '"', ')', '"', ']', '\x7b', '?', '\x7d'] :=
    .char rfl (.bracket .square hstring hcurly)
  exact parse_iterate_parenthesized hnested 2

end ComponentFile.Expression
