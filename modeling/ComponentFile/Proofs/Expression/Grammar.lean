import ComponentFile.Expression.Reader
import ComponentFile.Proofs.Expression.Nesting
import ComponentFile.Proofs.Text.Trimming

/-!
# The grammar of expressions

Expressions are written in phrases of several kinds. A phrase of a loose kind is made of phrases of
tighter kinds, and parentheses turn any phrase into one of the tightest kind. Operators of one group
are read to the right. The grammar relates a text to its tree; it says nothing about how the text is
read.
-/

namespace ComponentFile.Expression

/-- White space between two tokens, or nothing. -/
structure Gap where
  text : Text
  isBlankText : text.isBlankText = true

/-- The kinds of phrases, from the loosest to the tightest. -/
inductive Phrase where
  /-- Choices, and all that follows. -/
  | choice
  /-- Operations of the group with this number or a later one, and all that follows. -/
  | operation (group : Nat)
  /-- Operands with prefix operators, and all that follows. -/
  | signed
  /-- Calls, and all that follows. -/
  | called
  /-- Groups, constants and paths. -/
  | atom
  /-- Names joined by dots. -/
  | path
  deriving DecidableEq

/-- An argument of a call, with the white space around it. -/
structure Argument where
  before : Gap
  text : Text
  after : Gap
  tree : Expression

/-- The argument as it stands between commas. -/
def Argument.padded (argument : Argument) : Text :=
  argument.before.text ++ argument.text ++ argument.after.text

/-- Arguments with commas between them. -/
def argumentList : List Argument → Text
  | [] => []
  | [last] => last.padded
  | argument :: rest => argument.padded ++ ',' :: argumentList rest

/-- The name of a truth value. -/
def truthName : Bool → Text
  | true => ['t', 'r', 'u', 'e']
  | false => ['f', 'a', 'l', 's', 'e']

/-- A decimal numeral: a sign, digits, and perhaps a point and more digits. -/
def numeral (negative : Bool) (whole : Text) (fraction : Option Text) : Text :=
  (if negative then ['-'] else []) ++ whole ++
    match fraction with
    | some digits => '.' :: digits
    | none => []

/-- The number that a numeral stands for. -/
def numeralValue (negative : Bool) (whole : Text) (fraction : Option Text) : Binary64 where
  negative := negative
  magnitude := Magnitude.ofDecimal (Text.digitsValue (whole ++ fraction.getD []))
    (-((fraction.getD []).length : Int))

/-- The text is a phrase of this kind with this tree. -/
inductive Derives : Phrase → Text → Expression → Prop
  | choice {condition consequent alternate : Text} {test first second : Expression}
      (g₁ g₂ g₃ g₄ : Gap)
      (hcondition : Derives (.operation 0) condition test)
      (hconsequent : Derives (.operation 0) consequent first)
      (halternate : Derives .choice alternate second) :
      Derives .choice
        (condition ++ g₁.text ++ '?' ::
          (g₂.text ++ consequent ++ g₃.text ++ ':' :: (g₄.text ++ alternate)))
        (.conditional test first second)
  | ofOperation {text : Text} {tree : Expression} (h : Derives (.operation 0) text tree) :
      Derives .choice text tree
  /-- Operators stand between white space. -/
  | operation {k : Nat} {group : List BinaryOperator} {op : BinaryOperator} {left right : Text}
      {first second : Expression} (g₁ g₂ : Gap) (hgroup : BinaryOperator.groups[k]? = some group)
      (hop : op ∈ group) (hg₁ : g₁.text ≠ []) (hg₂ : g₂.text ≠ [])
      (hleft : Derives (.operation (k + 1)) left first)
      (hright : Derives (.operation k) right second) :
      Derives (.operation k) (left ++ g₁.text ++ op.symbol ++ g₂.text ++ right)
        (.binary op first second)
  | ofTighter {k : Nat} {text : Text} {tree : Expression}
      (h : Derives (.operation (k + 1)) text tree) :
      Derives (.operation k) text tree
  | ofSigned {text : Text} {tree : Expression} (h : Derives .signed text tree) :
      Derives (.operation BinaryOperator.groups.length) text tree
  | not {operand : Text} {tree : Expression} (gap : Gap) (h : Derives .signed operand tree) :
      Derives .signed ('!' :: (gap.text ++ operand)) (.unary .not tree)
  /-- A sign before a digit is part of a numeral. -/
  | negate {operand : Text} {tree : Expression} (gap : Gap)
      (hdigit : ∀ c ∈ (gap.text ++ operand).head?, c.isDigit = false)
      (h : Derives .signed operand tree) :
      Derives .signed ('-' :: (gap.text ++ operand)) (.unary .negate tree)
  | ofCalled {text : Text} {tree : Expression} (h : Derives .called text tree) :
      Derives .signed text tree
  | call {callee : Text} {function : Expression} (gap : Gap) {arguments : List Argument}
      (hne : arguments ≠ []) (hcallee : Derives .called callee function)
      (harguments : ∀ argument ∈ arguments, Derives .choice argument.text argument.tree) :
      Derives .called (callee ++ gap.text ++ parenthesized (argumentList arguments))
        (.call function (arguments.map Argument.tree))
  | callEmpty {callee : Text} {function : Expression} (gap inner : Gap)
      (hcallee : Derives .called callee function) :
      Derives .called (callee ++ gap.text ++ parenthesized inner.text) (.call function [])
  | ofAtom {text : Text} {tree : Expression} (h : Derives .atom text tree) :
      Derives .called text tree
  /-- Parentheses leave no node. -/
  | group {inner : Text} {tree : Expression} (g₁ g₂ : Gap) (h : Derives .choice inner tree) :
      Derives .atom (parenthesized (g₁.text ++ inner ++ g₂.text)) tree
  | truth (value : Bool) : Derives .atom (truthName value) (.literal (.bool value))
  | number (negative : Bool) {whole : Text} {fraction : Option Text}
      (hwhole : whole.isDigits = true)
      (hfraction : ∀ digits ∈ fraction, Text.isDigits digits = true) :
      Derives .atom (numeral negative whole fraction)
        (.literal (.number (numeralValue negative whole fraction)))
  | string {quote : Char} {content : Text} (hquote : isQuote quote = true)
      (hcontent : quote ∉ content)
      (hescape : '\\' ∉ content) : Derives .atom (quoted quote content) (.literal (.string content))
  | ofPath {text : Text} {tree : Expression} (h : Derives .path text tree) : Derives .atom text tree
  | name {name : Text} (hname : isName name = true) (htruth : ∀ value, name ≠ truthName value) :
      Derives .path name (.identifier name)
  | property {object name : Text} {tree : Expression} (g₁ g₂ : Gap) (hname : isName name = true)
      (hobject : Derives .path object tree) :
      Derives .path (object ++ g₁.text ++ '.' :: (g₂.text ++ name)) (.property tree name)

/-! ## Reading by forms -/

/-- The tree of a form, given how its parts are read. -/
def Form.tree (read : Text → Expression) : Form → Expression
  | .conditional condition consequent alternate =>
    .conditional (read condition) (read consequent) (read alternate)
  | .binary op left right => .binary op (read left) (read right)
  | .unary op operand => .unary op (read operand)
  | .group inner => read inner
  | .call callee arguments => .call (read callee) (arguments.map read)
  | .property object name => .property (read object) name
  | .literal value => .literal value
  | .identifier name => .identifier name
  | .unknown raw => .unknown raw

/-- A text is read as the form of the text without the blanks around it. -/
theorem parse_eq (text : Text) : parse text = (Form.of text.trim).tree parse := by
  rw [parse]
  split <;> next hform => rw [hform]; simp [Form.tree]

/-- Blanks around a text do not matter. -/
theorem parse_pad (before after : Gap) (text : Text) :
    parse (before.text ++ text ++ after.text) = parse text := by
  rw [parse_eq, Text.trim_pad before.isBlankText after.isBlankText, ← parse_eq]

end ComponentFile.Expression
