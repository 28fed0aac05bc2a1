import ComponentFile.Numeral.Shortest

/-!
# Layout of numerals

How a value is set out once its digits are known: in positional notation or with an exponent, with
or without a fraction part, and what stands for an infinite value. Each kind of output has one
`Layout`.
-/

namespace ComponentFile

/-- The decisions of one output format about numerals. -/
structure Layout where
  /-- Which of two equally near decimals is written. -/
  tie : TieRule
  /-- Whether a whole number in positional notation ends in `.0`. -/
  keepsFraction : Bool
  /-- The decimal exponents, of the first digit, that are written in positional notation. -/
  positional : Int → Bool
  /-- What stands for an infinite value, without its sign. -/
  infinity : Text
  /-- Whether an infinite value keeps its sign. -/
  signsInfinity : Bool

namespace Layout

/-- A decimal in positional notation. -/
def plain (keepsFraction : Bool) (decimal : Decimal) : Text :=
  let count : Int := decimal.digits.length
  if decimal.point ≤ 0 then
    ['0', '.'] ++ List.replicate (-decimal.point).toNat '0' ++ decimal.digits
  else if count ≤ decimal.point then
    decimal.digits ++ List.replicate (decimal.point - count).toNat '0' ++
      (if keepsFraction then ['.', '0'] else [])
  else
    decimal.digits.take decimal.point.toNat ++ ['.'] ++ decimal.digits.drop decimal.point.toNat

/-- A decimal as one digit, a fraction if there are more digits, and a signed exponent. -/
def scientific (decimal : Decimal) : Text :=
  let exponent := decimal.point - 1
  decimal.digits.take 1 ++
    (if decimal.digits.length ≤ 1 then [] else '.' :: decimal.digits.drop 1) ++
    ['e', if exponent < 0 then '-' else '+'] ++ Nat.toDigits 10 exponent.natAbs

/-- The numeral of a value. -/
def write (layout : Layout) (value : Binary64) : Text :=
  let sign := if value.negative then ['-'] else []
  match value.magnitude with
  | .infinite => (if layout.signsInfinity then sign else []) ++ layout.infinity
  | .finite mantissa exponent =>
    let decimal := Decimal.shortest layout.tie mantissa exponent
    sign ++
      if layout.positional (decimal.point - 1) then plain layout.keepsFraction decimal
      else scientific decimal

end Layout

end ComponentFile
