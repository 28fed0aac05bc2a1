import ComponentFile.Text.Basic

/-!
# Strings and brackets in expression text

A left-to-right reading of expression text tells which characters stand outside string literals
(*code*), which of those stand outside every bracket pair (*top level*), and which round parentheses
belong together. Each reading keeps all characters and only marks them, so the marked text can be
cut and its pieces are pieces of the text.
-/

namespace ComponentFile.Expression

/-- Where a reading stands with respect to string literals. -/
inductive Quoting where
  /-- Outside every string literal. -/
  | code
  /-- Inside a literal that the given quote ends. -/
  | inside (quote : Char)
  /-- Inside such a literal, just after a backslash. -/
  | escaped (quote : Char)
  deriving DecidableEq, Repr

/-- The three characters that delimit string literals. -/
def isQuote (c : Char) : Bool := c == '"' || c == '\'' || c == '\x60'

/-- The state after one more character. -/
def Quoting.next : Quoting → Char → Quoting
  | .code, c => if isQuote c then .inside c else .code
  | .inside quote, c =>
    if c = '\\' then .escaped quote else if c = quote then .code else .inside quote
  | .escaped quote, _ => .inside quote

/-- A text with a yes or no for each character. -/
abbrev Marked := List (Char × Bool)

namespace Marked

/-- The characters without their marks. -/
def text (marked : Marked) : Text := marked.map Prod.fst

@[simp] theorem text_nil : text [] = [] := rfl

@[simp] theorem text_cons (c : Char) (mark : Bool) (rest : Marked) :
    text ((c, mark) :: rest) = c :: text rest := rfl

@[simp] theorem length_text (marked : Marked) : marked.text.length = marked.length := by
  simp [text]

/-- Cuts at the first marked occurrence of `target`. -/
def cut? (target : Char) : Marked → Option (Text × Marked)
  | [] => none
  | (c, mark) :: rest =>
    if mark && c == target then some ([], rest)
    else (cut? target rest).map fun (before, after) => (c :: before, after)

/-- Cuts at every marked occurrence of `target`. -/
def pieces (target : Char) : Marked → List Text
  | [] => [[]]
  | (c, mark) :: rest =>
    if mark && c == target then [] :: pieces target rest
    else
      match pieces target rest with
      | [] => [[c]]
      | piece :: others => (c :: piece) :: others

/-- What follows `symbol`, when the characters start with it. -/
def after? : Text → Marked → Option Marked
  | [], marked => some marked
  | _ :: _, [] => none
  | s :: symbol, (c, _) :: marked => if s = c then after? symbol marked else none

/-- The cut target is the one character missing from the two pieces. -/
theorem length_of_cut?_eq_some {target : Char} {marked after : Marked} {before : Text}
    (h : cut? target marked = some (before, after)) :
    marked.length = before.length + after.length + 1 := by
  induction marked generalizing before with
  | nil => simp [cut?] at h
  | cons head rest ih =>
    obtain ⟨c, mark⟩ := head
    rw [cut?] at h
    split at h
    · simp only [Option.some.injEq, Prod.mk.injEq] at h
      obtain ⟨rfl, rfl⟩ := h
      simp
    · simp only [Option.map_eq_some_iff, Prod.mk.injEq] at h
      obtain ⟨⟨b, a⟩, hb, rfl, rfl⟩ := h
      have := ih hb
      simp only [List.length_cons, this]
      omega

/-- No piece is longer than the marked text. -/
theorem length_le_of_mem_pieces {target : Char} {marked : Marked} {piece : Text}
    (h : piece ∈ pieces target marked) : piece.length ≤ marked.length := by
  induction marked generalizing piece with
  | nil => simp_all [pieces]
  | cons head rest ih =>
    obtain ⟨c, mark⟩ := head
    rw [pieces] at h
    split at h
    · rcases List.mem_cons.1 h with rfl | h
      · simp
      · exact Nat.le_succ_of_le (ih h)
    · split at h
      · simp_all
      · next first others hp =>
        rcases List.mem_cons.1 h with rfl | h
        · exact Nat.succ_le_succ (ih (hp ▸ List.mem_cons_self))
        · exact Nat.le_succ_of_le (ih (hp ▸ List.mem_cons_of_mem _ h))

/-- A symbol and what follows it make up the marked text. -/
theorem length_of_after?_eq_some {symbol : Text} {marked after : Marked}
    (h : after? symbol marked = some after) : marked.length = symbol.length + after.length := by
  induction symbol generalizing marked with
  | nil => simp_all [after?]
  | cons s symbol ih =>
    cases marked with
    | nil => simp [after?] at h
    | cons head marked =>
      obtain ⟨c, mark⟩ := head
      rw [after?] at h
      split at h
      · simp only [List.length_cons, ih h]
        omega
      · cases h

end Marked

/-- Marks the characters outside string literals, starting in the given state. The quotes themselves
belong to the literal, and a literal left open runs to the end. -/
def codeFrom : Quoting → Text → Marked
  | _, [] => []
  | state, c :: rest =>
    (c, decide (state = .code ∧ state.next c = .code)) :: codeFrom (state.next c) rest

/-- Marks the characters outside string literals. -/
def code (text : Text) : Marked := codeFrom .code text

/-- An opening bracket of any of the three kinds. -/
def isOpener (c : Char) : Bool := c == '(' || c == '[' || c == '\x7b'

/-- A closing bracket of any of the three kinds. -/
def isCloser (c : Char) : Bool := c == ')' || c == ']' || c == '\x7d'

/-- Keeps the mark of those characters that stand at depth zero; brackets lose theirs. After a stray
closer the depth is negative, and nothing is at depth zero until an opener makes up for it. The
depth is an unbounded integer: it does not wrap around, however many brackets there are. -/
def atDepth : Int → Marked → Marked
  | _, [] => []
  | depth, (c, mark) :: rest =>
    if mark && isOpener c then (c, false) :: atDepth (depth + 1) rest
    else if mark && isCloser c then (c, false) :: atDepth (depth - 1) rest
    else (c, mark && depth == 0) :: atDepth depth rest

/-- Marks the characters outside every bracket pair and string literal. -/
def topLevel (text : Text) : Marked := atDepth 0 (code text)

/-- The pairs of matching round parentheses among the marked characters, by position, in the order
of their closers. `position` counts characters and `waiting` holds the openers without a closer
yet. -/
def parensFrom : Nat → List Nat → Marked → List (Nat × Nat)
  | _, _, [] => []
  | position, waiting, (c, mark) :: rest =>
    if mark && c == '(' then parensFrom (position + 1) (position :: waiting) rest
    else if mark && c == ')' then
      match waiting with
      | [] => parensFrom (position + 1) [] rest
      | opener :: outer => (opener, position) :: parensFrom (position + 1) outer rest
    else parensFrom (position + 1) waiting rest

/-- The pairs of matching round parentheses outside string literals, by position. -/
def matchingParens (text : Text) : List (Nat × Nat) := parensFrom 0 [] (code text)

@[simp] theorem text_codeFrom (state : Quoting) (t : Text) : (codeFrom state t).text = t := by
  induction t generalizing state with
  | nil => rfl
  | cons c rest ih => simp [codeFrom, ih]

@[simp] theorem text_atDepth (depth : Int) (marked : Marked) :
    (atDepth depth marked).text = marked.text := by
  induction marked generalizing depth with
  | nil => rfl
  | cons head rest ih =>
    obtain ⟨c, mark⟩ := head
    rw [atDepth]
    split
    · simp [ih]
    · split <;> simp [ih]

/-- Marking keeps every character in its place. -/
@[simp] theorem text_topLevel (t : Text) : (topLevel t).text = t := by
  simp [topLevel, code]

/-- Marking keeps the length. -/
@[simp] theorem length_topLevel (t : Text) : (topLevel t).length = t.length := by
  rw [← Marked.length_text, text_topLevel]

end ComponentFile.Expression
