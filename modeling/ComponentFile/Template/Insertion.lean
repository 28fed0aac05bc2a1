import ComponentFile.Template.Header
import ComponentFile.Template.Registry

/-!
# Inserted values

Two directives have no body: raw markup, which starts with a keyword, and interpolation, which is
any other pair of double braces around an expression.
-/

namespace ComponentFile.Template

/-- The keyword that starts raw markup. -/
def rawKeyword : Text := ['{', '{', '@', 'h', 't', 'm', 'l']

/-- Reads raw markup, as the text of its expression, at the start of a text. A blank expression does
not count. -/
def rawMarkup : Recogniser Text := fun text => do
  let (inner, _) ← header? rawKeyword text
  if inner.isBlankText then none else return (inner.trim, headerLength rawKeyword inner)

/-- Whether an expression starts like a block directive. -/
def startsWithSigil : Text → Bool
  | c :: _ => c == '@' || c == '/' || c == ':'
  | [] => false

/-- Reads an interpolation, as the text of its expression, at the start of a text. The expression is
not blank, holds no closing brace and does not start with a sigil of block directives. -/
def interpolation : Recogniser Text := fun text => do
  let rest ← Text.after? opening text
  let (inner, _) ← Text.cut? closing rest
  if inner.isBlankText || startsWithSigil inner.trim || '}' ∈ inner then none
  else return (inner.trim, headerLength opening inner)

/-- One pass over the raw markup of a text. -/
def replaceRawMarkup : Pass := fun text registry =>
  registry.replace (fun content registry => (.rawMarkup content, registry))
    (Segment.segments rawMarkup text)

/-- One pass over the interpolations of a text. -/
def replaceInterpolations : Pass := fun text registry =>
  registry.replace (fun expression registry => (.interpolation expression, registry))
    (Segment.segments interpolation text)

end ComponentFile.Template
