import ComponentFile.Numeral.Binary64
import Mathlib.Data.Int.Log
import Mathlib.Data.Rat.Floor
import Mathlib.Tactic.Positivity
import Mathlib.Tactic.Ring
import Mathlib.Tactic.NormNum

/-!
# Rounding to the nearest size

The size nearest to a quotient depends on the quotient alone, not on how it is written as a
fraction. Every size that rounding gives is one of the format, and a quotient that is such a size is
rounded to itself.
-/

namespace ComponentFile.Magnitude

/-- A finite size of the format in the one way it is represented: with a mantissa of 53 bits, or
with a shorter one at the least exponent. -/
def IsFinite : Magnitude → Prop
  | .infinite => False
  | .finite mantissa exponent =>
    mantissa < 2 ^ 53 ∧ leastExponent ≤ exponent ∧ exponent ≤ greatestExponent ∧
      (2 ^ 52 ≤ mantissa ∨ exponent = leastExponent)

instance : DecidablePred IsFinite
  | .infinite => .isFalse id
  | .finite mantissa exponent =>
    inferInstanceAs (Decidable
      (mantissa < 2 ^ 53 ∧ leastExponent ≤ exponent ∧ exponent ≤ greatestExponent ∧
        (2 ^ 52 ≤ mantissa ∨ exponent = leastExponent)))

/-! ## Division -/

/-- A common factor does not matter. -/
theorem divNearest_mul_left {factor : Nat} (h : 0 < factor) (num den : Nat) :
    divNearest (factor * num) (factor * den) = divNearest num den := by
  have hdouble (n : Nat) : 2 * (factor * n) = factor * (2 * n) := by ring
  simp only [divNearest, Nat.mul_div_mul_left num den h, Nat.mul_mod_mul_left, hdouble,
    Nat.mul_lt_mul_left h]

/-- A multiple is divided without rounding. -/
theorem divNearest_mul_right (quotient : Nat) {den : Nat} (h : 0 < den) :
    divNearest (quotient * den) den = quotient := by
  simp only [divNearest, Nat.mul_div_cancel quotient h, Nat.mul_mod_left, Nat.mul_zero, if_pos h]

/-- Rounding does not pass a natural number. -/
theorem le_divNearest {bound num den : Nat} (hden : 0 < den) (h : bound * den ≤ num) :
    bound ≤ divNearest num den := by
  have hquotient : bound ≤ num / den := (Nat.le_div_iff_mul_le hden).mpr h
  simp only [divNearest]
  split
  · exact hquotient
  split <;> omega

theorem divNearest_le {bound num den : Nat} (hden : 0 < den) (h : num < bound * den) :
    divNearest num den ≤ bound := by
  have hquotient : num / den < bound := (Nat.div_lt_iff_lt_mul hden).mpr h
  have heven := Nat.mod_lt (num / den) (show 0 < 2 by decide)
  simp only [divNearest]
  split
  · omega
  split <;> omega

/-! ## The order of a quotient -/

private theorem two_zpow_eq_div (k : Int) :
    (2 : ℚ) ^ k = (2 ^ k.toNat : ℕ) / (2 ^ (-k).toNat : ℕ) := by
  rw [eq_div_iff (by positivity)]
  push_cast
  rw [← zpow_natCast, ← zpow_natCast, ← zpow_add₀ (by norm_num)]
  congr 1
  omega

section

variable {num den : Nat} (hden : 0 < den) (hnum : 0 < num)

include hden hnum

theorem le_log_div_iff (k : Int) : k ≤ Int.log 2 (num / den : ℚ) ↔ (2 : ℚ) ^ k ≤ num / den := by
  have hpos : (0 : ℚ) < num / den := div_pos (by exact_mod_cast hnum) (by exact_mod_cast hden)
  exact_mod_cast (Int.zpow_le_iff_le_log (R := ℚ) (b := 2) (by norm_num) hpos).symm

/-- Whether a quotient reaches a power of two can be told without division. -/
theorem add_le_log_div_iff (exponent : Int) (bits : Nat) :
    exponent + bits ≤ Int.log 2 (num / den : ℚ) ↔
      2 ^ bits * (den * 2 ^ exponent.toNat) ≤ num * 2 ^ (-exponent).toNat := by
  have hpos : (0 : ℚ) < den := by exact_mod_cast hden
  rw [le_log_div_iff hden hnum, zpow_add₀ (by norm_num), zpow_natCast, two_zpow_eq_div,
    div_mul_eq_mul_div, div_le_div_iff₀ (by positivity) hpos]
  have hcommute : ((2 ^ exponent.toNat : ℕ) : ℚ) * 2 ^ bits * den =
      (2 ^ bits * (den * 2 ^ exponent.toNat) : ℕ) := by
    push_cast
    ring
  rw [hcommute]
  exact_mod_cast Iff.rfl

/-- The order of a quotient is its binary logarithm. -/
theorem binaryOrder_eq_log : binaryOrder num den = Int.log 2 (num / den : ℚ) := by
  -- the estimate from the orders of the two numbers is at most one too great
  have hlower : (num.log2 : Int) - den.log2 - 1 ≤ Int.log 2 (num / den : ℚ) := by
    have hpower : (2 : ℚ) ^ ((num.log2 : Int) - den.log2 - 1) * 2 ^ (den.log2 + 1) =
        2 ^ num.log2 := by
      rw [← zpow_natCast, ← zpow_natCast, ← zpow_add₀ (by norm_num)]
      congr 1
      push_cast
      ring
    have hupper : (den : ℚ) ≤ 2 ^ (den.log2 + 1) := by
      exact_mod_cast (Nat.lt_log2_self (n := den)).le
    have hfirst : (2 : ℚ) ^ num.log2 ≤ num := by exact_mod_cast Nat.log2_self_le hnum.ne'
    rw [le_log_div_iff hden hnum, le_div_iff₀ (by exact_mod_cast hden)]
    calc (2 : ℚ) ^ ((num.log2 : Int) - den.log2 - 1) * den
        ≤ 2 ^ ((num.log2 : Int) - den.log2 - 1) * 2 ^ (den.log2 + 1) :=
          mul_le_mul_of_nonneg_left hupper (zpow_nonneg (by norm_num) _)
      _ = 2 ^ num.log2 := hpower
      _ ≤ num := hfirst
  have hupper : ¬ (num.log2 : Int) - den.log2 + 1 ≤ Int.log 2 (num / den : ℚ) := by
    have hpower : (2 : ℚ) ^ ((num.log2 : Int) - den.log2 + 1) * 2 ^ den.log2 =
        2 ^ (num.log2 + 1) := by
      rw [← zpow_natCast, ← zpow_natCast, ← zpow_add₀ (by norm_num)]
      congr 1
      push_cast
      ring
    have hlast : (num : ℚ) < 2 ^ (num.log2 + 1) := by exact_mod_cast Nat.lt_log2_self (n := num)
    have hfirst : (2 : ℚ) ^ den.log2 ≤ den := by exact_mod_cast Nat.log2_self_le hden.ne'
    rw [le_log_div_iff hden hnum, not_le, div_lt_iff₀ (by exact_mod_cast hden)]
    calc (num : ℚ) < 2 ^ (num.log2 + 1) := hlast
      _ = 2 ^ ((num.log2 : Int) - den.log2 + 1) * 2 ^ den.log2 := hpower.symm
      _ ≤ 2 ^ ((num.log2 : Int) - den.log2 + 1) * den :=
          mul_le_mul_of_nonneg_left hfirst (zpow_nonneg (by norm_num) _)
  have hestimate := add_le_log_div_iff hden hnum ((num.log2 : Int) - den.log2) 0
  rw [Nat.cast_zero, Int.add_zero, Nat.pow_zero, Nat.one_mul] at hestimate
  simp only [binaryOrder, Nat.pow_eq]
  split
  · next hreaches =>
    have hreached := hestimate.mpr hreaches
    omega
  · next hreaches =>
    have hmissed := mt hestimate.mp hreaches
    omega

end

/-! ## Sizes -/

/-- The size nearest to a quotient depends on the quotient only. -/
private theorem nearest_mul_left {factor den : Nat} (h : 0 < factor) (hden : 0 < den) (num : Nat) :
    nearest (factor * num) (factor * den) = nearest num den := by
  rcases Nat.eq_zero_or_pos num with rfl | hnum
  · rfl
  · have horder : binaryOrder (factor * num) (factor * den) = binaryOrder num den := by
      have hfactor : (factor : ℚ) ≠ 0 := by exact_mod_cast h.ne'
      rw [binaryOrder_eq_log (Nat.mul_pos h hden) (Nat.mul_pos h hnum),
        binaryOrder_eq_log hden hnum, Nat.cast_mul, Nat.cast_mul, mul_div_mul_left _ _ hfactor]
    have hzero : factor * num ≠ 0 := (Nat.mul_pos h hnum).ne'
    simp only [nearest, if_neg hzero, if_neg hnum.ne', horder, Nat.mul_assoc, divNearest_mul_left h]

theorem nearest_congr {num den other otherDen : Nat} (hden : 0 < den) (hother : 0 < otherDen)
    (h : num * otherDen = other * den) : nearest num den = nearest other otherDen := by
  rw [← nearest_mul_left hother hden, ← nearest_mul_left hden hother, Nat.mul_comm otherDen num, h,
    Nat.mul_comm other den, Nat.mul_comm otherDen den]

/-- Zeros at the end of the digits may go into the exponent. -/
theorem ofDecimal_mul_pow (digits zeros : Nat) (exponent : Int) :
    ofDecimal (digits * 10 ^ zeros) exponent = ofDecimal digits (exponent + zeros) := by
  refine nearest_congr (Nat.pos_of_ne_zero ?_) (Nat.pos_of_ne_zero ?_) ?_
  · simp
  · simp
  · simp only [Nat.pow_eq]
    have hexponent : zeros + exponent.toNat + (-(exponent + zeros)).toNat =
        (exponent + zeros).toNat + (-exponent).toNat := by omega
    calc digits * 10 ^ zeros * 10 ^ exponent.toNat * 10 ^ (-(exponent + zeros)).toNat
        = digits * 10 ^ (zeros + exponent.toNat + (-(exponent + zeros)).toNat) := by ring
      _ = digits * 10 ^ (exponent + zeros).toNat * 10 ^ (-exponent).toNat := by rw [hexponent]; ring

/-- A size of the format is the one nearest to itself. -/
theorem nearest_of_isFinite {num den mantissa : Nat} {exponent : Int} (hden : 0 < den)
    (hfinite : IsFinite (.finite mantissa exponent))
    (h : num * 2 ^ (-exponent).toNat = mantissa * (den * 2 ^ exponent.toNat)) :
    nearest num den = .finite mantissa exponent := by
  obtain ⟨hbits, hleast, hgreatest, hnormal⟩ := hfinite
  have hunit : 0 < den * 2 ^ exponent.toNat := Nat.mul_pos hden (Nat.two_pow_pos _)
  rcases Nat.eq_zero_or_pos num with rfl | hnum
  · rw [Nat.zero_mul, eq_comm, Nat.mul_eq_zero, or_iff_left hunit.ne'] at h
    subst h
    obtain rfl := hnormal.resolve_left (by decide)
    rfl
  · have hreaches (bits : Nat) : exponent + bits ≤ binaryOrder num den ↔ 2 ^ bits ≤ mantissa := by
      rw [binaryOrder_eq_log hden hnum, add_le_log_div_iff hden hnum, h,
        Nat.mul_le_mul_right_iff hunit]
    have htop := (hreaches 53).not.mpr (by omega)
    have hexponent : max (binaryOrder num den - 52) leastExponent = exponent := by
      rcases hnormal with hnormal | rfl
      · have hfull := (hreaches 52).mpr hnormal
        omega
      · omega
    have hmantissa : divNearest (num * 2 ^ (-exponent).toNat) (den * 2 ^ exponent.toNat) =
        mantissa := by
      rw [h, divNearest_mul_right mantissa hunit]
    simp only [nearest, if_neg hnum.ne', hexponent, Nat.pow_eq, hmantissa, ofMantissa]
    rw [if_neg (by omega), if_neg (by omega), if_neg (by omega)]

/-- A mantissa of at most 53 bits, or the carry of one, makes a size of the format. -/
theorem isFinite_ofMantissa {rounded mantissa : Nat} {order exponent : Int}
    (hbits : rounded ≤ 2 ^ 53) (hleast : leastExponent ≤ order)
    (hnormal : 2 ^ 52 ≤ rounded ∨ order = leastExponent)
    (h : ofMantissa rounded order = .finite mantissa exponent) :
    IsFinite (.finite mantissa exponent) := by
  simp only [ofMantissa, Nat.pow_eq] at h
  by_cases hcarried : rounded = 2 ^ 53
  · simp only [if_pos hcarried] at h
    split at h
    · cases h
    · obtain ⟨rfl, rfl⟩ := finite.inj h
      exact ⟨by decide, by omega, by omega, .inl (Nat.le_refl _)⟩
  · simp only [if_neg hcarried] at h
    split at h
    · cases h
    · obtain ⟨rfl, rfl⟩ := finite.inj h
      exact ⟨by omega, hleast, by omega, hnormal⟩

/-- Rounding gives sizes of the format. -/
theorem isFinite_nearest {num den mantissa : Nat} {exponent : Int} (hden : 0 < den)
    (h : nearest num den = .finite mantissa exponent) : IsFinite (.finite mantissa exponent) := by
  by_cases hzero : num = 0
  · subst hzero
    obtain ⟨rfl, rfl⟩ := finite.inj h
    decide
  · have hnum := Nat.pos_of_ne_zero hzero
    simp only [nearest, if_neg hzero, Nat.pow_eq] at h
    generalize horder : max (binaryOrder num den - 52) leastExponent = order at h
    have hunit : 0 < den * 2 ^ order.toNat := Nat.mul_pos hden (Nat.two_pow_pos _)
    have hreaches (bits : Nat) : order + bits ≤ binaryOrder num den ↔
        2 ^ bits * (den * 2 ^ order.toNat) ≤ num * 2 ^ (-order).toNat := by
      rw [binaryOrder_eq_log hden hnum, add_le_log_div_iff hden hnum]
    have htop := (hreaches 53).not.mp (by omega)
    refine isFinite_ofMantissa (divNearest_le hunit (Nat.lt_of_not_le htop)) (by omega) ?_ h
    rcases Int.le_total (binaryOrder num den - 52) leastExponent with hle | hle
    · exact .inr (by omega)
    · exact .inl (le_divNearest hunit ((hreaches 52).mp (by omega)))

end ComponentFile.Magnitude
