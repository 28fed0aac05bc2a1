import ComponentFile.Numeral.Shortest
import ComponentFile.Proofs.Directive.Placeholder
import ComponentFile.Proofs.Numeral.Rounding
import Mathlib.Data.List.TakeWhile

/-!
# Decimals that read back

The shortest decimal of a finite size is read as that size again: a decimal on one of the tried
grids because it was read back before it was taken, and the exact expansion because no rounding
takes place.
-/

namespace ComponentFile

namespace Text

/-- Zeros before the digits do not count. -/
theorem digitsValue_replicate_append (zeros : Nat) (digits : Text) :
    digitsValue (List.replicate zeros '0' ++ digits) = digitsValue digits := by
  have happend : digitsValue (List.replicate zeros '0' ++ digits) =
      Nat.ofDigitChars 10 digits (Nat.ofDigitChars 10 (List.replicate zeros '0') 0) :=
        Nat.ofDigitChars_append 0
  rw [happend, Nat.ofDigitChars_replicate_zero, Nat.mul_zero]
  rfl

/-- Zeros after the digits multiply by ten. -/
theorem digitsValue_append_replicate (digits : Text) (zeros : Nat) :
    digitsValue (digits ++ List.replicate zeros '0') = digitsValue digits * 10 ^ zeros := by
  have happend : digitsValue (digits ++ List.replicate zeros '0') =
      Nat.ofDigitChars 10 (List.replicate zeros '0') (digitsValue digits) :=
        Nat.ofDigitChars_append 0
  rw [happend, Nat.ofDigitChars_replicate_zero, Nat.mul_comm]

end Text

namespace Decimal

/-- The decimal is written with digits and is read as the size. -/
structure Reads (decimal : Decimal) (size : Magnitude) : Prop where
  isDigits : decimal.digits.isDigits = true
  ofDecimal_eq :
    Magnitude.ofDecimal decimal.digits.digitsValue (decimal.point - decimal.digits.length) = size

/-- A text is what is left of it without the zeros at its end, and these zeros. -/
private theorem exists_zeros (text : Text) :
    ∃ zeros, text = (text.reverse.dropWhile (· == '0')).reverse ++ List.replicate zeros '0' := by
  have hzero : ∀ c ∈ text.reverse.takeWhile (· == '0'), c = '0' := by
    intro c hc
    exact beq_iff_eq.mp (List.mem_takeWhile_imp (p := (· == '0')) hc)
  refine ⟨(text.reverse.takeWhile (· == '0')).length, ?_⟩
  calc text = (text.reverse.takeWhile (· == '0') ++ text.reverse.dropWhile (· == '0')).reverse := by
        rw [List.takeWhile_append_dropWhile, List.reverse_reverse]
    _ = (text.reverse.dropWhile (· == '0')).reverse ++
      (text.reverse.takeWhile (· == '0')).reverse :=
        List.reverse_append
    _ = _ := by rw [List.eq_replicate_of_mem hzero, List.reverse_replicate, List.length_replicate]

/-- A decimal without its zeros at the end is read like the digits with them. -/
theorem reads_ofScaled {digits : Nat} (h : 0 < digits) (exponent : Int) :
    Reads (ofScaled digits exponent) (Magnitude.ofDecimal digits exponent) := by
  obtain ⟨zeros, hzeros⟩ := exists_zeros (Nat.toDigits 10 digits)
  have hvalue := Placeholder.digitsValue_toDigits digits
  have hdigits := Placeholder.isDigits_iff.mp (Placeholder.isDigits_toDigits digits)
  unfold ofScaled
  generalize hstripped : ((Nat.toDigits 10 digits).reverse.dropWhile (· == '0')).reverse =
    stripped at hzeros
  dsimp only
  rw [hstripped]
  rw [hzeros] at hdigits hvalue
  rw [Text.digitsValue_append_replicate] at hvalue
  split
  · have hzero : Text.digitsValue [] * 10 ^ zeros = 0 := Nat.zero_mul _
    omega
  · next hne =>
    refine ⟨Placeholder.isDigits_iff.mpr ⟨hne, fun c hc => hdigits.2 c (List.mem_append_left _ hc)⟩,
      ?_⟩
    have hlength : ((Nat.toDigits 10 digits).length + exponent - stripped.length : Int) =
        exponent + zeros := by
      rw [hzeros, List.length_append, List.length_replicate]
      push_cast
      omega
    dsimp only
    rw [hlength, ← Magnitude.ofDecimal_mul_pow, hvalue]

/-- A decimal that is taken from a grid was read back before. -/
theorem ofDecimal_of_onGrid? {tie : TieRule} {mantissa digits : Nat} {exponent unit : Int}
    (h : onGrid? tie mantissa exponent unit = some digits) :
    Magnitude.ofDecimal digits unit = .finite mantissa exponent := by
  unfold onGrid? at h
  dsimp only at h
  generalize (inUnits mantissa exponent unit).1 / (inUnits mantissa exponent unit).2 = below at h
  split at h
  · cases h
  · next hfirst _ => exact Option.some.inj h ▸ of_decide_eq_true hfirst
  · next _ hsecond => exact Option.some.inj h ▸ of_decide_eq_true hsecond
  · next hfirst hsecond =>
    have hcases : digits = below ∨ digits = below + 1 := by
      split at h
      · exact .inl (Option.some.inj h).symm
      split at h
      · exact .inr (Option.some.inj h).symm
      split at h
      · exact .inr (Option.some.inj h).symm
      · have heven := Option.some.inj h
        omega
    rcases hcases with rfl | rfl
    · exact of_decide_eq_true hfirst
    · exact of_decide_eq_true hsecond

private theorem reads_exact {mantissa : Nat} {exponent : Int} (hne : mantissa ≠ 0)
    (h : Magnitude.IsFinite (.finite mantissa exponent)) :
    Reads (exact mantissa exponent) (.finite mantissa exponent) := by
  have hread : Magnitude.ofDecimal (mantissa * Nat.pow 2 exponent.toNat *
      Nat.pow 5 (-exponent).toNat)
      (min exponent 0) = .finite mantissa exponent := by
    have hwhole : (min exponent 0).toNat = 0 := by omega
    have hplaces : (-(min exponent 0)).toNat = (-exponent).toNat := by omega
    simp only [Magnitude.ofDecimal, Nat.pow_eq, hwhole, hplaces, Nat.pow_zero, Nat.mul_one]
    refine Magnitude.nearest_of_isFinite (Nat.pow_pos (by decide)) h ?_
    rw [show 10 = 5 * 2 from rfl, Nat.mul_pow]
    ring
  have hpos : 0 < mantissa * Nat.pow 2 exponent.toNat * Nat.pow 5 (-exponent).toNat :=
    Nat.mul_pos (Nat.mul_pos (Nat.pos_of_ne_zero hne) (Nat.pow_pos (by decide)))
      (Nat.pow_pos (by decide))
  exact hread ▸ reads_ofScaled hpos (min exponent 0)

/-- The shortest decimal of a finite size is read as the size. -/
theorem reads_shortest (tie : TieRule) {mantissa : Nat} {exponent : Int}
    (h : Magnitude.IsFinite (.finite mantissa exponent)) :
    Reads (shortest tie mantissa exponent) (.finite mantissa exponent) := by
  unfold shortest
  split
  · next hzero =>
    subst hzero
    obtain rfl : exponent = Magnitude.leastExponent := h.2.2.2.resolve_left (by decide)
    exact ⟨rfl, rfl⟩
  · next hne =>
    dsimp only
    cases hgrid : (List.range 17).findSome? _ with
    | none => exact reads_exact hne h
    | some decimal =>
      obtain ⟨count, -, hcount⟩ := List.exists_of_findSome?_eq_some hgrid
      obtain ⟨digits, hdigits, rfl⟩ := Option.map_eq_some_iff.mp hcount
      have hread := ofDecimal_of_onGrid? hdigits
      have hpos : 0 < digits := by
        refine Nat.pos_of_ne_zero ?_
        rintro rfl
        rw [Magnitude.ofDecimal, Nat.zero_mul] at hread
        exact hne (Magnitude.finite.inj hread).1.symm
      exact hread ▸ reads_ofScaled hpos _

end Decimal

end ComponentFile
