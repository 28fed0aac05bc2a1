import ComponentFile.Text.Blank

/-!
# Directive headers

A directive starts with two opening braces and a keyword, and its header runs up to the next two
closing braces. The keyword has to stand alone: white space or the closing braces follow it.
-/

namespace ComponentFile.Template

/-- Two opening braces. -/
def opening : Text := ['{', '{']

/-- Two closing braces. -/
def closing : Text := ['}', '}']

/-- Reads a header at the start of a text: what stands between `keyword` and the next closing
braces, and what follows those. -/
def header? (keyword text : Text) : Option (Text × Text) := do
  let rest ← Text.after? keyword text
  match rest with
  | [] => none
  | c :: _ => if isSpace c || c == '}' then Text.cut? closing rest else none

/-- The number of characters from the keyword to the closing braces. -/
def headerLength (keyword inner : Text) : Nat := keyword.length + inner.length + closing.length

end ComponentFile.Template
