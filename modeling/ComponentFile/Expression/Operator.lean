import ComponentFile.Text.Blank

/-!
# Operators

The infix and prefix operators of template expressions, their symbols, the groups in which infix
operators bind, and when the symbol of an infix operator stands for that operator.
-/

namespace ComponentFile

/-- Infix operators. -/
inductive BinaryOperator where
  | or
  | and
  | strictEqual
  | strictNotEqual
  | equal
  | notEqual
  | greaterEqual
  | lessEqual
  | greater
  | less
  | add
  | subtract
  | multiply
  | divide
  | remainder
  deriving DecidableEq, Repr

/-- Prefix operators. -/
inductive UnaryOperator where
  | not
  | negate
  deriving DecidableEq, Repr

/-- The symbol of a prefix operator. -/
def UnaryOperator.symbol : UnaryOperator → Text
  | .not => ['!']
  | .negate => ['-']

namespace BinaryOperator

/-- The symbol of an infix operator. -/
def symbol : BinaryOperator → Text
  | .or => ['|', '|']
  | .and => ['&', '&']
  | .strictEqual => ['=', '=', '=']
  | .strictNotEqual => ['!', '=', '=']
  | .equal => ['=', '=']
  | .notEqual => ['!', '=']
  | .greaterEqual => ['>', '=']
  | .lessEqual => ['<', '=']
  | .greater => ['>']
  | .less => ['<']
  | .add => ['+']
  | .subtract => ['-']
  | .multiply => ['*']
  | .divide => ['/']
  | .remainder => ['%']

/-- Every symbol has at least one character. -/
theorem length_symbol_pos (op : BinaryOperator) : 0 < op.symbol.length := by
  cases op <;> decide

/-- The operators that bind alike, from the loosest group to the tightest. Inside a group a longer
symbol comes before any symbol it starts with. -/
def groups : List (List BinaryOperator) :=
  [[.or],
   [.and],
   [.strictEqual, .strictNotEqual, .equal, .notEqual],
   [.greaterEqual, .lessEqual, .greater, .less],
   [.add, .subtract],
   [.multiply, .divide, .remainder]]

/-- Whether a sign at this place has no operand before it. The text before the place is given
reversed, nearest character first. -/
def isSignPlace (before : Text) : Bool :=
  match before.dropWhile isBlank with
  | [] => true
  | c :: _ =>
    ['+', '-', '*', '/', '%', '<', '>', '=', '!', '&', '|', '?', ':', '(', ',', '[',
      '\x7b'].contains c

/-- Whether the symbol of `op` is neither part of a longer operator nor a sign, judged by the
reversed text before it and the character after it. -/
def standsAlone (op : BinaryOperator) (before : Text) (after : Option Char) : Bool :=
  let follows (c : Char) : Bool := before.head? == some c
  let precedes (c : Char) : Bool := after == some c
  match op with
  | .or | .and | .divide | .remainder => true
  | .strictEqual | .equal =>
    !(follows '=' || follows '!' || follows '<' || follows '>') && !precedes '='
  | .strictNotEqual | .notEqual | .greaterEqual | .lessEqual => !precedes '='
  | .greater | .less =>
    !(precedes '=' || precedes '<' || precedes '>') &&
      !(follows '=' || follows '<' || follows '>')
  | .add => !(follows '+' || precedes '+' || isSignPlace before)
  | .subtract => !(follows '-' || precedes '-' || isSignPlace before)
  | .multiply => !(follows '*' || precedes '*')

end BinaryOperator

end ComponentFile
