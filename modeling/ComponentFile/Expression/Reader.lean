import ComponentFile.Expression.Form

/-!
# Reading expressions

Reading never fails: the outermost form of the trimmed text is found, and its parts are read in
turn.
-/

namespace ComponentFile.Expression

/-- The expression tree of a text. -/
def parse (text : Text) : Expression :=
  match _form : Form.of text.trim with
  | .conditional condition consequent alternate =>
    .conditional (parse condition) (parse consequent) (parse alternate)
  | .binary op left right => .binary op (parse left) (parse right)
  | .unary op operand => .unary op (parse operand)
  | .group inner => parse inner
  | .call callee arguments =>
    .call (parse callee) (arguments.attach.map fun ⟨argument, _⟩ => parse argument)
  | .property object name => .property (parse object) name
  | .literal value => .literal value
  | .identifier name => .identifier name
  | .unknown raw => .unknown raw
termination_by text.length
decreasing_by
  all_goals
    refine Nat.lt_of_lt_of_le (Form.length_lt_of_mem_parts ?_) (Text.length_trim_le text)
    rw [_form]
    simp_all [Form.parts]

end ComponentFile.Expression
