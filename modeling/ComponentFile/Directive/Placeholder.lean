import ComponentFile.Directive.Basic
import ComponentFile.Template.Segment
import ComponentFile.Text.Digits

/-!
# Placeholders

In processed text a markup comment with a marker and an index stands for a directive. Ordinary
comments are no placeholders: the marker consists of capital ASCII letters and underscores, and the
index of ASCII digits whose number fits into 64 bits.
-/

namespace ComponentFile

/-- A reference to a directive by marker and index. -/
structure Placeholder where
  marker : Text
  index : Nat
  deriving DecidableEq, Repr

namespace Placeholder

/-- How a placeholder starts. -/
def opening : Text := ['<', '!', '-', '-', ' ']

/-- How a placeholder ends. -/
def closing : Text := [' ', '-', '-', '>']

/-- Every index is below this bound. -/
def indexBound : Nat := Nat.pow 2 64

/-- The comment that stands for the directive. -/
def render (placeholder : Placeholder) : Text :=
  opening ++ placeholder.marker ++ '_' :: Nat.toDigits 10 placeholder.index ++ closing

/-- Whether a marker may consist of this character. -/
def isMarkerChar (c : Char) : Bool := c.isUpper || c == '_'

/-- Whether the text can be a marker. -/
def isMarker (text : Text) : Bool := !text.isEmpty && text.all isMarkerChar

/-- Reads a run of ASCII digits as an index. -/
def index? (digits : Text) : Option Nat :=
  if digits.isDigits && digits.digitsValue < indexBound then some digits.digitsValue else none

/-- Reads the inside of a placeholder comment. -/
def ofInner? (inner : Text) : Option Placeholder := do
  let (marker, digits) ← Text.cutLast? ['_'] inner
  let index ← index? digits
  if isMarker marker then return { marker, index } else none

/-- Reads a placeholder at the start of a text. -/
def recognise : Recogniser Placeholder := fun text => do
  let rest ← Text.after? opening text
  let (inner, _) ← Text.cut? closing rest
  let placeholder ← ofInner? inner
  return (placeholder, opening.length + inner.length + closing.length)

/-- A placeholder and the byte span at which it stands. -/
structure Found extends Placeholder where
  start : Nat
  stop : Nat
  deriving DecidableEq, Repr

/-- The placeholders of a text, in order. -/
def findAll (text : Text) : List Found :=
  (Segment.located 0 (Segment.segments recognise text)).map fun (placeholder, start, stop) =>
    { placeholder with start, stop }

end Placeholder

/-- The placeholder that stands for a directive. -/
def Directive.placeholder (directive : Directive) : Placeholder where
  marker := directive.kind.marker
  index := directive.index

end ComponentFile
