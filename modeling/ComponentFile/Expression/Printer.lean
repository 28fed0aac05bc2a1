import ComponentFile.Expression.Basic
import ComponentFile.Numeral.Layout
import ComponentFile.Text.Quoted

/-!
# Printing expressions

The written form of a tree: one space around infix operators and the marks of a choice, none after a
prefix operator, arguments separated by a comma and a space. Parentheses are not put back.
-/

namespace ComponentFile.Expression

/-- Numerals are written in positional notation with no more digits than needed; of two equally near
decimals the greater is taken. -/
def numberLayout : Layout where
  tie := .up
  keepsFraction := false
  positional := fun _ => true
  infinity := ['i', 'n', 'f']
  signsInfinity := true

/-- The written form of a constant. -/
def displayLiteral : Literal → Text
  | .string content => content.quoted
  | .number value => numberLayout.write value
  | .bool true => ['t', 'r', 'u', 'e']
  | .bool false => ['f', 'a', 'l', 's', 'e']

mutual

/-- The written form of an expression. -/
def display : Expression → Text
  | .identifier name => name
  | .property object name => display object ++ '.' :: name
  | .call callee arguments => display callee ++ '(' :: displayArguments arguments ++ [')']
  | .binary op left right => display left ++ ' ' :: op.symbol ++ ' ' :: display right
  | .unary op operand => op.symbol ++ display operand
  | .conditional condition consequent alternate =>
    display condition ++ [' ', '?', ' '] ++ display consequent ++ [' ', ':', ' '] ++
      display alternate
  | .literal value => displayLiteral value
  | .unknown raw => raw

/-- The written form of an argument list, without its parentheses. -/
def displayArguments : List Expression → Text
  | [] => []
  | [argument] => display argument
  | argument :: rest => display argument ++ [',', ' '] ++ displayArguments rest

end

end ComponentFile.Expression
