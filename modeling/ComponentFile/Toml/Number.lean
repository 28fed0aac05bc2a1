import ComponentFile.Text.Digits
import ComponentFile.Toml.Lexical
import ComponentFile.Toml.Value

/-!
# Numbers, dates and times of the TOML format

Integers have 64 bits and can be written in four bases; underscores may stand between digits. A
number with a fraction or an exponent is a floating-point one. Dates and times have to be possible
ones.
-/

namespace ComponentFile.Toml

/-- Reads the digits after the first, with single underscores between digits. -/
def moreDigits (test : Char → Bool) : Text → Option (Text × Text)
  | '_' :: c :: rest =>
    if test c then (moreDigits test rest).map fun (digits, left) => (c :: digits, left) else none
  | ['_'] => none
  | c :: rest =>
    if test c then (moreDigits test rest).map fun (digits, left) => (c :: digits, left)
    else some ([], c :: rest)
  | [] => some ([], [])

/-- Reads digits of a class, with single underscores between them. -/
def digits (test : Char → Bool) : Reader Text := do
  let first ← Reader.one test
  let more ← moreDigits test
  return first :: more

/-- Reads the sign of a number; true for a minus sign. -/
def sign : Reader Bool := do
  if ← Reader.optionally ['-'] then return true
  let _ ← Reader.optionally ['+']
  return false

/-- The least 64-bit integer and the greatest. -/
def integerRange : Int × Int := (-Int.pow 2 63, Int.pow 2 63 - 1)

/-- An integer value, if it fits into 64 bits. -/
def integer (value : Int) : Reader Value :=
  if integerRange.1 ≤ value ∧ value ≤ integerRange.2 then return .integer value else failure

/-- Reads an integer of the given base after its mark. -/
def integerInBase (base : Nat) : Reader Value := do
  let isDigit (c : Char) : Bool := (hexDigit? c).any (· < base)
  let numeral ← digits isDigit
  integer (numeral.foldl (fun value c => base * value + (hexDigit? c).getD 0) 0)

/-- Reads the whole part of a decimal number: a zero alone, or digits that do not start with one. -/
def wholePart : Reader Text := do
  if ← Reader.optionally ['0'] then return ['0']
  digits Char.isDigit

/-- Reads the exponent of a number after its mark. -/
def exponentPart : Reader Int := do
  let negative ← sign
  let value : Int := Text.digitsValue (← digits Char.isDigit)
  return if negative then -value else value

/-- Reads an exponent with its mark, if there is one. -/
def exponentPart? : Reader (Option Int) := do
  if (← Reader.optionally ['e']) || (← Reader.optionally ['E']) then
    return some (← exponentPart)
  return none

/-- A floating-point value; numbers too great for one are refused. -/
def float (negative : Bool) (numeral : Text) (exponent : Int) : Reader Value :=
  let magnitude := Magnitude.ofScientific (Text.digitsValue numeral) exponent
  if magnitude = .infinite ∧ !negative then failure
  else return .float (.number ⟨negative, magnitude⟩)

/-- Reads a decimal number or one of the special ones. -/
def decimal : Reader Value := do
  let negative ← sign
  if ← Reader.optionally "inf".toList then return .float (.number ⟨negative, .infinite⟩)
  if ← Reader.optionally "nan".toList then return .float .notANumber
  let whole ← wholePart
  if ← Reader.optionally ['.'] then
    let fraction ← digits Char.isDigit
    let exponent := (← exponentPart?).getD 0
    float negative (whole ++ fraction) (exponent - fraction.length)
  else
    match ← exponentPart? with
    | some exponent => float negative whole exponent
    | none =>
      let value : Int := Text.digitsValue whole
      integer (if negative then -value else value)

/-- Reads exactly `count` digits of a number within the given bounds. -/
def fixedDigits (count least greatest : Nat) : Reader Nat := fun text =>
  let numeral := text.take count
  let value := Text.digitsValue numeral
  if numeral.length = count ∧ numeral.all Char.isDigit ∧ least ≤ value ∧ value ≤ greatest then
    some (value, text.drop count)
  else none

/-- The number of days of a month. -/
def daysIn (year month : Nat) : Nat :=
  if month = 2 then
    if year % 4 = 0 ∧ (year % 100 ≠ 0 ∨ year % 400 = 0) then 29 else 28
  else if month = 4 ∨ month = 6 ∨ month = 9 ∨ month = 11 then 30
  else 31

/-- Reads a date. -/
def date : Reader Unit := do
  let year ← fixedDigits 4 0 9999
  Reader.exactly ['-']
  let month ← fixedDigits 2 1 12
  Reader.exactly ['-']
  let _ ← fixedDigits 2 1 (daysIn year month)

/-- Reads a time of day. -/
def time : Reader Unit := do
  let _ ← fixedDigits 2 0 23
  Reader.exactly [':']
  let _ ← fixedDigits 2 0 59
  Reader.exactly [':']
  let _ ← fixedDigits 2 0 60
  if ← Reader.optionally ['.'] then
    let _ ← Reader.one Char.isDigit
    let _ ← Reader.run Char.isDigit

/-- Reads the offset of a time from universal time, if there is one. -/
def offset : Reader Unit := do
  match ← Reader.peek? with
  | some c =>
    if c == 'Z' || c == 'z' then
      let _ ← Reader.one fun _ => true
    else if c == '+' || c == '-' then
      let _ ← Reader.one fun _ => true
      let _ ← fixedDigits 2 0 23
      Reader.exactly [':']
      let _ ← fixedDigits 2 0 59
  | none => return

/-- Whether a text starts with `count` digits and then `mark`. -/
def startsWithDigits (count : Nat) (mark : Char) (text : Text) : Bool :=
  (text.takeWhile Char.isDigit).length == count && (text.dropWhile Char.isDigit).head? == some mark

/-- Reads a date, a time, or both. -/
def moment : Reader Value := fun text => do
  if startsWithDigits 2 ':' text then
    let (_, rest) ← time text
    return (.moment, rest)
  let (_, rest) ← date text
  match rest with
  | c :: after =>
    if (c == 'T' || c == 't' || c == ' ') && startsWithDigits 2 ':' after then
      let (_, rest) ← time after
      let (_, rest) ← offset rest
      return (.moment, rest)
    else return (.moment, rest)
  | [] => return (.moment, rest)

/-- Reads a number, a date or a time. -/
def numberOrMoment : Reader Value := fun text =>
  if startsWithDigits 4 '-' text || startsWithDigits 2 ':' text then moment text
  else
    match text with
    | '0' :: 'x' :: rest => integerInBase 16 rest
    | '0' :: 'o' :: rest => integerInBase 8 rest
    | '0' :: 'b' :: rest => integerInBase 2 rest
    | _ => decimal text

end ComponentFile.Toml
