/-!
# Binary floating-point values

The values a numeral can have: the 64-bit binary format with 53 bits of precision, told apart by
sign, mantissa and exponent. A quotient of naturals is rounded to the nearest value, a tie going to
the even mantissa, by exact arithmetic.
-/

namespace ComponentFile

/-- The size of a value without its sign. -/
inductive Magnitude where
  /-- `mantissa` times two to the power `exponent`. -/
  | finite (mantissa : Nat) (exponent : Int)
  /-- Larger than every finite size. -/
  | infinite
  deriving DecidableEq, Repr

/-- A 64-bit binary value; both zeros are kept apart by their sign. -/
structure Binary64 where
  /-- Whether the value carries a minus sign. -/
  negative : Bool
  /-- The size of the value. -/
  magnitude : Magnitude
  deriving DecidableEq, Repr

namespace Magnitude

/-- The least exponent: sizes below `2 ^ 52` at this exponent are the subnormal ones. -/
def leastExponent : Int := -1074

/-- The greatest exponent of a finite size. -/
def greatestExponent : Int := 971

/-- The quotient rounded to the nearest natural, a half going to the even neighbour. -/
def divNearest (num den : Nat) : Nat :=
  let quotient := num / den
  let remainder := num % den
  if 2 * remainder < den then quotient
  else if den < 2 * remainder then quotient + 1
  else quotient + quotient % 2

/-- The greatest `k` with `2 ^ k ≤ num / den`, for a positive quotient. -/
def binaryOrder (num den : Nat) : Int :=
  let estimate : Int := (num.log2 : Int) - (den.log2 : Int)
  if den * Nat.pow 2 estimate.toNat ≤ num * Nat.pow 2 (-estimate).toNat then estimate
  else estimate - 1

/-- A mantissa of at most 53 bits at its exponent, or infinity when the exponent is too great.
Rounding up may carry into a 54th bit, which moves into the exponent. -/
def ofMantissa (mantissa : Nat) (exponent : Int) : Magnitude :=
  let carried := mantissa = Nat.pow 2 53
  let exponent := if carried then exponent + 1 else exponent
  if greatestExponent < exponent then .infinite
  else .finite (if carried then Nat.pow 2 52 else mantissa) exponent

/-- The size nearest to `num / den`. -/
def nearest (num den : Nat) : Magnitude :=
  if num = 0 then .finite 0 leastExponent
  else
    let exponent := max (binaryOrder num den - 52) leastExponent
    ofMantissa (divNearest (num * Nat.pow 2 (-exponent).toNat) (den * Nat.pow 2 exponent.toNat))
      exponent

/-- The size nearest to `digits` times ten to the power `exponent`. -/
def ofDecimal (digits : Nat) (exponent : Int) : Magnitude :=
  nearest (digits * Nat.pow 10 exponent.toNat) (Nat.pow 10 (-exponent).toNat)

/-- The size nearest to `digits` times ten to the power `exponent`, for exponents of any size.
Numbers from ten to the power 310 on are infinite, and those below ten to the power -330 are
zero. -/
def ofScientific (digits : Nat) (exponent : Int) : Magnitude :=
  let order : Int := (Nat.toDigits 10 digits).length + exponent
  if digits = 0 ∨ order < -330 then .finite 0 leastExponent
  else if 310 < order then .infinite
  else ofDecimal digits exponent

/-- The whole part of a finite size. -/
def floor? : Magnitude → Option Nat
  | .infinite => none
  | .finite mantissa exponent =>
    some (mantissa * Nat.pow 2 exponent.toNat / Nat.pow 2 (-exponent).toNat)

end Magnitude

end ComponentFile
