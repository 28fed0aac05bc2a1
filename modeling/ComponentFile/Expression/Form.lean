import ComponentFile.Expression.Basic
import ComponentFile.Expression.Nesting
import ComponentFile.Text.Digits

/-!
# The outermost form of an expression text

An expression text is read from the outside in: its outermost form is found first, and the parts of
that form are read in turn. The forms are tried in a fixed order, and each cut is made at a
character outside every bracket pair and string literal:

1. a choice, at the first `?` and the first `:` after it;
2. an infix operation, at the first operator of the loosest group present;
3. a prefix operation;
4. a group in round parentheses;
5. a call, by its trailing argument list;
6. a property, at the last `.`;
7. a constant;
8. a name.

Every part is shorter than the text it was cut from (`Form.length_lt_of_mem_parts`), so reading
ends.
-/

namespace ComponentFile.Expression

/-- An ASCII letter, an underscore or a dollar sign. -/
def isNameStart (c : Char) : Bool := c.isAlpha || c == '_' || c == '$'

/-- A character that may continue a name. -/
def isNamePart (c : Char) : Bool := isNameStart c || c.isDigit

/-- Whether the text is a name. -/
def isName : Text → Bool
  | [] => false
  | c :: rest => isNameStart c && rest.all isNamePart

/-- Reads digits with at most one decimal point between them, after an optional minus sign. -/
def number? (text : Text) : Option Binary64 :=
  let (negative, unsigned) := match text with
    | '-' :: rest => (true, rest)
    | _ => (false, text)
  let (whole, fraction, wellFormed) := match Text.cut? ['.'] unsigned with
    | some (whole, fraction) => (whole, fraction, whole.isDigits && fraction.isDigits)
    | none => (unsigned, [], Text.isDigits unsigned)
  if wellFormed then
    some ⟨negative,
      Magnitude.ofDecimal (Text.digitsValue (whole ++ fraction)) (-(fraction.length : Int))⟩
  else none

/-- Reads a constant: text between two quotes of one kind, a numeral, or a truth value. -/
def literal? (text : Text) : Option Literal :=
  match text with
  | quote :: c :: rest =>
    if isQuote quote && (c :: rest).getLast? == some quote then
      some (.string (c :: rest).dropLast)
    else if text = ['t', 'r', 'u', 'e'] then some (.bool true)
    else if text = ['f', 'a', 'l', 's', 'e'] then some (.bool false)
    else (number? text).map .number
  | _ => (number? text).map .number

/-- Cuts a choice into condition, consequent and alternate. -/
def splitConditional? (text : Text) : Option (Text × Text × Text) := do
  let (condition, rest) ← Marked.cut? '?' (topLevel text)
  let (consequent, alternate) ← Marked.cut? ':' rest
  return (condition, consequent, Marked.text alternate)

/-- The operator of `group` that stands at the start of the marked text, and what follows it. -/
def operator? (group : List BinaryOperator) (before : Text) (marked : Marked) :
    Option (BinaryOperator × Marked) :=
  group.findSome? fun op => do
    let rest ← Marked.after? op.symbol marked
    if op.standsAlone before (rest.head?.map Prod.fst) then some (op, rest) else none

/-- Cuts at the first marked operator of `group` with an operand on either side. The text already
passed is kept reversed. -/
def splitGroup? (group : List BinaryOperator) :
    Text → Marked → Option (BinaryOperator × Text × Text)
  | _, [] => none
  | before, (c, mark) :: rest =>
    match if mark then operator? group before ((c, mark) :: rest) else none with
    | some (op, after) =>
      if Text.isBlankText before || Text.isBlankText (Marked.text after) then
        splitGroup? group (c :: before) rest
      else some (op, before.reverse, Marked.text after)
    | none => splitGroup? group (c :: before) rest

/-- Cuts an infix operation at the first operator of the loosest group present. -/
def splitBinary? (text : Text) : Option (BinaryOperator × Text × Text) :=
  let marked := topLevel text
  BinaryOperator.groups.findSome? fun group => splitGroup? group [] marked

/-- Cuts a prefix operator off. A minus sign before a digit belongs to the numeral. -/
def splitUnary? : Text → Option (UnaryOperator × Text)
  | '!' :: rest => some (.not, rest)
  | '-' :: c :: rest => if c.isDigit then none else some (.negate, c :: rest)
  | _ => none

/-- The inside of a text that one pair of round parentheses wraps. -/
def stripGroup? (text : Text) : Option Text :=
  match text with
  | '(' :: rest =>
    if (0, rest.length) ∈ matchingParens text then some rest.dropLast else none
  | _ => none

/-- Cuts an argument list at its commas. A blank list has no argument, and a blank after the last
comma is none. -/
def splitArguments (text : Text) : List Text :=
  let arguments := Marked.pieces ',' (topLevel text)
  match arguments.getLast? with
  | some last => if last.isBlankText then arguments.dropLast else arguments
  | none => arguments

/-- Cuts a call at the parenthesis that its last character closes. -/
def splitCall? (text : Text) : Option (Text × List Text) := do
  let length := text.length
  let (opener, _) ← (matchingParens text).find? fun pair => pair.2 + 1 == length
  let callee := text.dropLast.take opener
  if Text.isBlankText callee then none
  else return (callee, splitArguments (text.dropLast.drop (opener + 1)))

/-- Cuts a property off at the last `.` of a text without round parentheses. -/
def splitProperty? (text : Text) : Option (Text × Text) := do
  if '(' ∈ text then none
  else
    let (object, name) ← Text.cutLast? ['.'] text
    if object.isBlankText || !isName name.trim then none else return (object, name.trim)

/-- The outermost form of an expression text, with its parts still unread. -/
inductive Form where
  | conditional (condition consequent alternate : Text)
  | binary (op : BinaryOperator) (left right : Text)
  | unary (op : UnaryOperator) (operand : Text)
  | group (inner : Text)
  | call (callee : Text) (arguments : List Text)
  | property (object name : Text)
  | literal (value : Literal)
  | identifier (name : Text)
  | unknown (raw : Text)
  deriving Repr

/-- The outermost form of a trimmed text. -/
def Form.of (text : Text) : Form :=
  match splitConditional? text with
  | some (condition, consequent, alternate) => .conditional condition consequent alternate
  | none =>
  match splitBinary? text with
  | some (op, left, right) => .binary op left right
  | none =>
  match splitUnary? text with
  | some (op, operand) => .unary op operand
  | none =>
  match stripGroup? text with
  | some inner => .group inner
  | none =>
  match splitCall? text with
  | some (callee, arguments) => .call callee arguments
  | none =>
  match splitProperty? text with
  | some (object, name) => .property object name
  | none =>
  match literal? text with
  | some value => .literal value
  | none => if isName text then .identifier text else .unknown text

/-- The parts of a form that are read in turn. -/
def Form.parts : Form → List Text
  | .conditional condition consequent alternate => [condition, consequent, alternate]
  | .binary _ left right => [left, right]
  | .unary _ operand => [operand]
  | .group inner => [inner]
  | .call callee arguments => callee :: arguments
  | .property object _ => [object]
  | .literal _ | .identifier _ | .unknown _ => []

/-- The parts of a choice leave out its two marks. -/
theorem length_of_splitConditional? {text condition consequent alternate : Text}
    (h : splitConditional? text = some (condition, consequent, alternate)) :
    text.length = condition.length + consequent.length + alternate.length + 2 := by
  simp only [splitConditional?, Option.bind_eq_bind, Option.bind_eq_some_iff, Prod.exists,
    Option.pure_def, Option.some.injEq, Prod.mk.injEq] at h
  obtain ⟨b, m, hb, b', m', hb', rfl, rfl, rfl⟩ := h
  have h₁ := Marked.length_of_cut?_eq_some hb
  have h₂ := Marked.length_of_cut?_eq_some hb'
  simp only [length_topLevel, Marked.length_text] at *
  omega

/-- What follows an operator found at the start leaves out the operator's symbol. -/
theorem length_of_operator? {group : List BinaryOperator} {before : Text} {marked after : Marked}
    {op : BinaryOperator} (h : operator? group before marked = some (op, after)) :
    marked.length = op.symbol.length + after.length := by
  obtain ⟨o, _, ho⟩ := List.exists_of_findSome?_eq_some h
  simp only [Option.bind_eq_bind, Option.bind_eq_some_iff] at ho
  obtain ⟨rest, hr, ho⟩ := ho
  split at ho
  · simp only [Option.some.injEq, Prod.mk.injEq] at ho
    obtain ⟨rfl, rfl⟩ := ho
    exact Marked.length_of_after?_eq_some hr
  · cases ho

/-- The operands of a cut inside a group, and the symbol between them, make up the text. -/
theorem length_of_splitGroup? {group : List BinaryOperator} {before left right : Text}
    {marked : Marked} {op : BinaryOperator}
    (h : splitGroup? group before marked = some (op, left, right)) :
    before.length + marked.length = left.length + op.symbol.length + right.length := by
  induction marked generalizing before with
  | nil => simp [splitGroup?] at h
  | cons head rest ih =>
    obtain ⟨c, mark⟩ := head
    have step (h : splitGroup? group (c :: before) rest = some (op, left, right)) :
        before.length + ((c, mark) :: rest).length =
          left.length + op.symbol.length + right.length := by
      have := ih h
      simp only [List.length_cons] at *
      omega
    rw [splitGroup?] at h
    split at h
    · next o after ho =>
      split at h
      · exact step h
      · simp only [Option.some.injEq, Prod.mk.injEq] at h
        obtain ⟨rfl, rfl, rfl⟩ := h
        split at ho
        · have := length_of_operator? ho
          simp only [List.length_reverse, Marked.length_text] at *
          omega
        · cases ho
    · exact step h

/-- The operands of an infix operation, and its symbol, make up the text. -/
theorem length_of_splitBinary? {text left right : Text} {op : BinaryOperator}
    (h : splitBinary? text = some (op, left, right)) :
    text.length = left.length + op.symbol.length + right.length := by
  obtain ⟨group, _, hg⟩ := List.exists_of_findSome?_eq_some h
  simpa using length_of_splitGroup? hg

/-- The operand of a prefix operation is shorter than the text. -/
theorem length_of_splitUnary? {text operand : Text} {op : UnaryOperator}
    (h : splitUnary? text = some (op, operand)) : text.length = operand.length + 1 := by
  unfold splitUnary? at h
  split at h
  · simp_all
  · split at h
    · cases h
    · simp_all
  · cases h

/-- The inside of a group is shorter than the text. -/
theorem length_of_stripGroup? {text inner : Text} (h : stripGroup? text = some inner) :
    inner.length < text.length := by
  unfold stripGroup? at h
  split at h
  · split at h
    · simp only [Option.some.injEq] at h
      subst h
      simp only [List.length_dropLast, List.length_cons]
      omega
    · cases h
  · cases h

/-- No argument is longer than the list it was cut from. -/
theorem length_le_of_mem_splitArguments {text argument : Text}
    (h : argument ∈ splitArguments text) : argument.length ≤ text.length := by
  have bound {a : Text} (ha : a ∈ Marked.pieces ',' (topLevel text)) : a.length ≤ text.length := by
    simpa using Marked.length_le_of_mem_pieces ha
  simp only [splitArguments] at h
  split at h
  · split at h
    · exact bound (List.dropLast_subset _ h)
    · exact bound h
  · exact bound h

/-- Callee and arguments of a call are shorter than the text. -/
theorem length_of_splitCall? {text callee : Text} {arguments : List Text}
    (h : splitCall? text = some (callee, arguments)) :
    callee.length < text.length ∧ ∀ a ∈ arguments, a.length < text.length := by
  simp only [splitCall?, Option.bind_eq_bind, Option.bind_eq_some_iff, Prod.exists] at h
  obtain ⟨opener, closer, hp, h⟩ := h
  have hpos : 0 < text.length := by
    have := List.find?_some hp
    simp only [beq_iff_eq] at this
    omega
  split at h
  · cases h
  · simp only [Option.pure_def, Option.some.injEq, Prod.mk.injEq] at h
    obtain ⟨rfl, rfl⟩ := h
    constructor
    · simp only [List.length_take, List.length_dropLast]
      omega
    · intro a ha
      have := length_le_of_mem_splitArguments ha
      simp only [List.length_drop, List.length_dropLast] at this
      omega

/-- The pieces around the last mark, and the mark itself, make up the text. -/
theorem length_of_cutLast? {mark text before after : Text}
    (h : Text.cutLast? mark text = some (before, after)) :
    text.length = before.length + mark.length + after.length := by
  induction text generalizing before with
  | nil =>
    simp only [Text.cutLast?, Option.map_eq_some_iff, Prod.mk.injEq] at h
    obtain ⟨r, hr, rfl, rfl⟩ := h
    have := congrArg List.length (Text.after?_eq_some_iff.1 hr)
    simpa using this
  | cons c text ih =>
    rw [Text.cutLast?] at h
    split at h
    · next b a hb =>
      simp only [Option.some.injEq, Prod.mk.injEq] at h
      obtain ⟨rfl, rfl⟩ := h
      have := ih hb
      simp only [List.length_cons]
      omega
    · simp only [Option.map_eq_some_iff, Prod.mk.injEq] at h
      obtain ⟨r, hr, rfl, rfl⟩ := h
      have := congrArg List.length (Text.after?_eq_some_iff.1 hr)
      simpa using this

/-- The object of a property is shorter than the text. -/
theorem length_of_splitProperty? {text object name : Text}
    (h : splitProperty? text = some (object, name)) : object.length < text.length := by
  unfold splitProperty? at h
  split at h
  · cases h
  · simp only [Option.bind_eq_bind, Option.bind_eq_some_iff, Prod.exists] at h
    obtain ⟨o, n, hc, h⟩ := h
    split at h
    · cases h
    · simp only [Option.pure_def, Option.some.injEq, Prod.mk.injEq] at h
      obtain ⟨rfl, rfl⟩ := h
      have := length_of_cutLast? hc
      simp only [List.length_cons, List.length_nil] at this
      omega

/-- Every part of a form is shorter than the text it was cut from. -/
theorem Form.length_lt_of_mem_parts {text part : Text} (h : part ∈ (Form.of text).parts) :
    part.length < text.length := by
  unfold Form.of at h
  split at h
  · next hs =>
    have := length_of_splitConditional? hs
    simp only [parts, List.mem_cons, List.not_mem_nil, or_false] at h
    rcases h with rfl | rfl | rfl <;> omega
  split at h
  · next op left right hs =>
    have := length_of_splitBinary? hs
    have := op.length_symbol_pos
    simp only [parts, List.mem_cons, List.not_mem_nil, or_false] at h
    rcases h with rfl | rfl <;> omega
  split at h
  · next hs =>
    have := length_of_splitUnary? hs
    simp only [parts, List.mem_cons, List.not_mem_nil, or_false] at h
    subst h
    omega
  split at h
  · next hs =>
    simp only [parts, List.mem_cons, List.not_mem_nil, or_false] at h
    exact h ▸ length_of_stripGroup? hs
  split at h
  · next hs =>
    rcases List.mem_cons.1 h with rfl | h
    · exact (length_of_splitCall? hs).1
    · exact (length_of_splitCall? hs).2 _ h
  split at h
  · next hs =>
    simp only [parts, List.mem_cons, List.not_mem_nil, or_false] at h
    exact h ▸ length_of_splitProperty? hs
  split at h
  · simp [parts] at h
  · split at h <;> simp [parts] at h

end ComponentFile.Expression
