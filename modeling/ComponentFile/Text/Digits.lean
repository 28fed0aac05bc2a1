import ComponentFile.Text.Basic

/-!
# Runs of digits
-/

namespace ComponentFile.Text

/-- Whether the text is a non-empty run of ASCII digits. -/
def isDigits (text : Text) : Bool := !text.isEmpty && text.all Char.isDigit

/-- The number that a run of ASCII digits stands for. -/
def digitsValue (digits : Text) : Nat :=
  digits.foldl (fun value c => 10 * value + (c.toNat - '0'.toNat)) 0

end ComponentFile.Text
