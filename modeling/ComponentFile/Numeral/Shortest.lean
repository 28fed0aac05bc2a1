import ComponentFile.Numeral.Binary64
import ComponentFile.Text.Basic

/-!
# Shortest decimals

A finite value is written with the fewest decimal digits that read back as the same value. For each
digit count the two neighbours of the value on that decimal grid are read back; the first grid with
a hit decides, and of two hits the nearer one. Should no grid of up to 17 digits have a hit, the
exact expansion is taken, so what is written always reads back.
-/

namespace ComponentFile

/-- Which of two equally near decimals is taken. -/
inductive TieRule where
  /-- The one with the greater size. -/
  | up
  /-- The one with the even last digit. -/
  | even
  deriving DecidableEq, Repr

/-- The number `0.d₁d₂d₃…` times ten to the power `point`. -/
structure Decimal where
  /-- The digits, without a zero at the end unless the number is zero. -/
  digits : Text
  /-- Where the decimal point stands, counted from the first digit. -/
  point : Int
  deriving DecidableEq, Repr

namespace Decimal

/-- The decimal of `digits` times ten to the power `exponent`. -/
def ofScaled (digits : Nat) (exponent : Int) : Decimal :=
  let numeral := Nat.toDigits 10 digits
  match (numeral.reverse.dropWhile (· == '0')).reverse with
  | [] => ⟨['0'], 1⟩
  | stripped => ⟨stripped, numeral.length + exponent⟩

/-- The exact numerator and denominator of `mantissa · 2 ^ exponent` in units of `10 ^ unit`. -/
def inUnits (mantissa : Nat) (exponent unit : Int) : Nat × Nat :=
  (mantissa * Nat.pow 2 exponent.toNat * Nat.pow 10 (-unit).toNat,
    Nat.pow 2 (-exponent).toNat * Nat.pow 10 unit.toNat)

/-- The number of zeros after the decimal point of `num / den < 1`, looked for among `fuel`
places. -/
def leadingZeros (num den : Nat) : Nat → Nat
  | 0 => 0
  | fuel + 1 => if den ≤ num * 10 then 0 else leadingZeros (num * 10) den fuel + 1

/-- The least `p` with `mantissa · 2 ^ exponent < 10 ^ p`. -/
def order (mantissa : Nat) (exponent : Int) : Int :=
  let (num, den) := inUnits mantissa exponent 0
  if den ≤ num then (Nat.toDigits 10 (num / den)).length
  else -(leadingZeros num den exponent.natAbs : Int)

/-- The nearer of the two neighbours on the grid of `10 ^ unit` that read back as the value. -/
def onGrid? (tie : TieRule) (mantissa : Nat) (exponent unit : Int) : Option Nat :=
  let (num, den) := inUnits mantissa exponent unit
  let below := num / den
  let rest := num % den
  let readsBack (digits : Nat) : Bool :=
    decide (Magnitude.ofDecimal digits unit = .finite mantissa exponent)
  match readsBack below, readsBack (below + 1) with
  | false, false => none
  | true, false => some below
  | false, true => some (below + 1)
  | true, true =>
    if 2 * rest < den then some below
    else if den < 2 * rest then some (below + 1)
    else
      match tie with
      | .up => some (below + 1)
      | .even => some (below + below % 2)

/-- The exact expansion of `mantissa · 2 ^ exponent`. -/
def exact (mantissa : Nat) (exponent : Int) : Decimal :=
  ofScaled (mantissa * Nat.pow 2 exponent.toNat * Nat.pow 5 (-exponent).toNat) (min exponent 0)

/-- The shortest decimal that reads back as `mantissa · 2 ^ exponent`. -/
def shortest (tie : TieRule) (mantissa : Nat) (exponent : Int) : Decimal :=
  if mantissa = 0 then ⟨['0'], 1⟩
  else
    let places := order mantissa exponent
    let grid (count : Nat) : Option Decimal :=
      let unit := places - (count + 1 : Int)
      (onGrid? tie mantissa exponent unit).map (ofScaled · unit)
    ((List.range 17).findSome? grid).getD (exact mantissa exponent)

end Decimal

end ComponentFile
