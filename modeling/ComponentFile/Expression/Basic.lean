import ComponentFile.Expression.Operator
import ComponentFile.Numeral.Binary64

/-!
# Expressions

The trees of the small expression language that stands inside template directives. Every text has a
tree: what fits no form is kept whole as an unknown node.
-/

namespace ComponentFile

/-- A constant written in an expression. -/
inductive Literal where
  /-- Quoted text, without its quotes. -/
  | string (content : Text)
  /-- A decimal numeral. -/
  | number (value : Binary64)
  /-- A truth value. -/
  | bool (value : Bool)
  deriving DecidableEq, Repr

/-- An expression tree. -/
inductive Expression where
  /-- A bare name. -/
  | identifier (name : Text)
  /-- A property of an object. -/
  | property (object : Expression) (name : Text)
  /-- A call with its arguments in order. -/
  | call (callee : Expression) (arguments : List Expression)
  /-- An infix operation. -/
  | binary (op : BinaryOperator) (left right : Expression)
  /-- A prefix operation. -/
  | unary (op : UnaryOperator) (operand : Expression)
  /-- A choice between two values. -/
  | conditional (condition consequent alternate : Expression)
  /-- A constant. -/
  | literal (value : Literal)
  /-- Text that has no other form. -/
  | unknown (raw : Text)
  deriving Repr, BEq

/-- The name of the outermost form of an expression. -/
def Expression.typeName : Expression → String
  | .identifier _ => "identifier"
  | .property _ _ => "property_access"
  | .call _ _ => "call"
  | .binary _ _ _ => "binary"
  | .unary _ _ => "unary"
  | .conditional _ _ _ => "conditional"
  | .literal _ => "literal"
  | .unknown _ => "unknown"

end ComponentFile
