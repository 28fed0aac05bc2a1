import ComponentFile.Expression.Printer
import ComponentFile.Proofs.Expression.Grammar
import ComponentFile.Proofs.Numeral.ReadBack

/-!
# Written numbers

A finite number is written as a numeral of the grammar, and the numeral stands for that number.
-/

namespace ComponentFile.Expression

/-- The digits before and after the point make up a numeral, without its sign, for the size. -/
structure StandsFor (whole : Text) (fraction : Option Text) (size : Magnitude) : Prop where
  isDigits_whole : whole.isDigits = true
  isDigits_fraction : ∀ digits ∈ fraction, Text.isDigits digits = true
  ofDecimal_eq : Magnitude.ofDecimal (Text.digitsValue (whole ++ fraction.getD []))
    (-((fraction.getD []).length : Int)) = size

/-- A zero is a digit. -/
theorem isDigit_of_mem_replicate {zeros : Nat} {c : Char} (h : c ∈ List.replicate zeros '0') :
    c.isDigit = true := by
  rw [List.eq_of_mem_replicate h]
  rfl

section

variable {digits : Text} {point : Int} {size : Magnitude} (h : Decimal.Reads ⟨digits, point⟩ size)

include h

private theorem standsFor_pointBefore (hpoint : point ≤ 0) :
    StandsFor ['0'] (some (List.replicate (-point).toNat '0' ++ digits)) size := by
  obtain ⟨hdigits, hread⟩ := h
  obtain ⟨hne, hall⟩ := Placeholder.isDigits_iff.mp hdigits
  refine ⟨rfl, fun other hother => ?_, ?_⟩
  · obtain rfl := Option.some.inj hother
    refine Placeholder.isDigits_iff.mpr ⟨List.append_ne_nil_of_right_ne_nil _ hne, fun c hc => ?_⟩
    exact (List.mem_append.mp hc).elim isDigit_of_mem_replicate (hall c)
  · have hvalue := Text.digitsValue_replicate_append ((-point).toNat + 1) digits
    have hexponent : (-((List.replicate (-point).toNat '0' ++ digits).length : Int)) =
        point - digits.length := by
      rw [List.length_append, List.length_replicate]
      omega
    rw [List.replicate_succ, List.cons_append] at hvalue
    rw [Option.getD_some, List.singleton_append, hvalue, hexponent, hread]

private theorem standsFor_pointBehind (hpoint : digits.length ≤ point) :
    StandsFor (digits ++ List.replicate (point - digits.length).toNat '0') none size := by
  obtain ⟨hdigits, hread⟩ := h
  obtain ⟨hne, hall⟩ := Placeholder.isDigits_iff.mp hdigits
  refine ⟨?_, nofun, ?_⟩
  · refine Placeholder.isDigits_iff.mpr ⟨List.append_ne_nil_of_left_ne_nil hne _, fun c hc => ?_⟩
    exact (List.mem_append.mp hc).elim (hall c) isDigit_of_mem_replicate
  · have hexponent : (-(([] : Text).length : Int)) + (point - digits.length).toNat =
        point - digits.length := by
      rw [List.length_nil]
      omega
    rw [Option.getD_none, List.append_nil, Text.digitsValue_append_replicate,
      Magnitude.ofDecimal_mul_pow, hexponent, hread]

/-- With the point between two digits, the digits are cut there. -/
private theorem standsFor_pointBetween (hpoint : 0 < point) (hcount : point < digits.length) :
    StandsFor (digits.take point.toNat) (some (digits.drop point.toNat)) size := by
  obtain ⟨hdigits, hread⟩ := h
  obtain ⟨hne, hall⟩ := Placeholder.isDigits_iff.mp hdigits
  refine ⟨?_, fun other hother => ?_, ?_⟩
  · refine Placeholder.isDigits_iff.mpr ⟨?_, fun c hc => hall c (List.mem_of_mem_take hc)⟩
    rw [ne_eq, List.take_eq_nil_iff, not_or]
    exact ⟨by omega, hne⟩
  · obtain rfl := Option.some.inj hother
    refine Placeholder.isDigits_iff.mpr ⟨?_, fun c hc => hall c (List.mem_of_mem_drop hc)⟩
    rw [ne_eq, List.drop_eq_nil_iff]
    omega
  · have hexponent : (-((digits.drop point.toNat).length : Int)) = point - digits.length := by
      rw [List.length_drop]
      omega
    rw [Option.getD_some, List.take_append_drop, hexponent, hread]

end

/-- A decimal in positional notation is a numeral for what the decimal is read as. -/
private theorem exists_plain_eq_numeral {decimal : Decimal} {size : Magnitude}
    (h : decimal.Reads size) :
    ∃ whole fraction, StandsFor whole fraction size ∧
      Layout.plain false decimal = numeral false whole fraction := by
  obtain ⟨digits, point⟩ := decimal
  unfold Layout.plain
  dsimp only
  split
  · next hpoint =>
    refine ⟨_, _, standsFor_pointBefore h hpoint, ?_⟩
    simp only [numeral, Bool.false_eq_true, if_false, List.nil_append, List.cons_append]
  split
  · next hcount =>
    refine ⟨_, _, standsFor_pointBehind h hcount, ?_⟩
    simp only [numeral, Bool.false_eq_true, if_false, List.nil_append]
  · next hpoint hcount =>
    refine ⟨_, _, standsFor_pointBetween h (not_le.mp hpoint) (not_le.mp hcount), ?_⟩
    simp only [numeral, Bool.false_eq_true, if_false, List.nil_append, List.append_assoc,
      List.cons_append]

/-- A number is written as its sign and the number without its sign. -/
theorem write_eq_sign_append (value : Binary64) :
    numberLayout.write value =
      (if value.negative then ['-'] else []) ++ numberLayout.write ⟨false, value.magnitude⟩ := by
  obtain ⟨negative, size⟩ := value
  cases size <;> rfl

/-- A finite number is written as a numeral that stands for it. -/
theorem exists_write_eq_numeral {value : Binary64} (h : value.magnitude.IsFinite) :
    ∃ whole fraction, StandsFor whole fraction value.magnitude ∧
      numberLayout.write value = numeral value.negative whole fraction ∧
      numeralValue value.negative whole fraction = value := by
  obtain ⟨negative, size⟩ := value
  cases size with
  | infinite => cases h
  | finite mantissa exponent =>
    obtain ⟨whole, fraction, hstands, hplain⟩ :=
      exists_plain_eq_numeral (Decimal.reads_shortest .up h)
    refine ⟨whole, fraction, hstands, ?_, ?_⟩
    · have hwrite : numberLayout.write ⟨negative, .finite mantissa exponent⟩ =
          (if negative then ['-'] else []) ++
            Layout.plain false (Decimal.shortest .up mantissa exponent) := rfl
      rw [hwrite, hplain]
      simp only [numeral, Bool.false_eq_true, if_false, List.nil_append, List.append_assoc]
    · rw [numeralValue, hstands.ofDecimal_eq]

end ComponentFile.Expression
