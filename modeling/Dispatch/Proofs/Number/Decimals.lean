import Dispatch.Number.Decimal
import Dispatch.Proofs.Number.Rounding

/-!
# The numbers that decimals denote

A decimal denotes its numerator over its divisor, `Decimal.value`. What the operations on decimals
answer is said here in terms of that number, so that it does not depend on trailing zeros. Every
decimal is far below the largest single-precision number.

* `Decimal.value_eq_intCast_iff`, `Decimal.equal_iff`: whole decimals and equal decimals.
* `Decimal.isFinite_toSingle`: no decimal becomes infinite in single precision.
-/

namespace Dispatch

namespace Decimal

variable {d e : Decimal}

/-! ### The number denoted -/

/-- The number that a decimal denotes. -/
def value (d : Decimal) : ℚ := d.numerator / d.divisor

theorem divisor_pos (d : Decimal) : 0 < d.divisor := Nat.pow_pos (by decide)

/-- Decimals are compared as numbers, so that trailing zeros and the sign of zero do not count. -/
theorem equal_iff : d.equal e = true ↔ d.value = e.value := by
  have hd : (d.divisor : ℚ) ≠ 0 := Nat.cast_ne_zero.mpr d.divisor_pos.ne'
  have he : (e.divisor : ℚ) ≠ 0 := Nat.cast_ne_zero.mpr e.divisor_pos.ne'
  rw [equal, beq_iff_eq, value, value, div_eq_div_iff hd he]
  exact_mod_cast Iff.rfl

/-- A decimal is an integer exactly if it has no fractional part, and then it is its whole part. -/
theorem value_eq_intCast_iff {i : ℤ} : d.value = i ↔ d.isWhole = true ∧ d.truncate = i := by
  have hd : (d.divisor : ℚ) ≠ 0 := Nat.cast_ne_zero.mpr d.divisor_pos.ne'
  have hmul : d.value = i ↔ d.numerator = i * d.divisor := by
    rw [value, div_eq_iff hd]
    exact_mod_cast Iff.rfl
  have hwhole : d.isWhole = true ↔ d.divisor ∣ d.coefficient := by
    rw [isWhole, beq_iff_eq, Nat.dvd_iff_mod_eq_zero]
  have hpos : (d.divisor : ℤ) ≠ 0 := Int.natCast_ne_zero.mpr d.divisor_pos.ne'
  rw [hmul, hwhole]
  constructor
  · intro h
    have hdvd : d.divisor ∣ d.coefficient := by
      have hnumerator : (d.divisor : ℤ) ∣ d.numerator := ⟨i, by rw [h, Int.mul_comm]⟩
      unfold numerator at hnumerator
      split at hnumerator
      · exact Int.natCast_dvd_natCast.mp ((Int.dvd_neg).mp hnumerator)
      · exact Int.natCast_dvd_natCast.mp hnumerator
    obtain ⟨q, hq⟩ := hdvd
    have hdiv : d.coefficient / d.divisor = q := by
      rw [hq, Nat.mul_div_cancel_left _ d.divisor_pos]
    refine ⟨⟨q, hq⟩, Int.eq_of_mul_eq_mul_right hpos ?_⟩
    rw [← h, truncate, numerator, hdiv, hq]
    split <;> push_cast <;> ring
  · rintro ⟨⟨q, hq⟩, rfl⟩
    have hdiv : d.coefficient / d.divisor = q := by
      rw [hq, Nat.mul_div_cancel_left _ d.divisor_pos]
    rw [truncate, numerator, hdiv, hq]
    split <;> push_cast <;> ring

/-! ### Magnitude -/

theorem divisor_lt (d : Decimal) : d.divisor < 2 ^ 94 := by
  have hle : d.divisor ≤ 10 ^ 28 := Nat.pow_le_pow_right (by decide) d.scale_le
  exact Nat.lt_of_le_of_lt hle (by decide)

/-- The power of ten that a decimal is divided by lies between two powers of two. -/
theorem exists_two_pow_le_divisor (d : Decimal) :
    ∃ t, t < 94 ∧ 2 ^ t ≤ d.divisor ∧ d.divisor < 2 ^ (t + 1) := by
  have hdivisor : d.divisor ≠ 0 := d.divisor_pos.ne'
  exact ⟨d.divisor.log2, (Nat.log2_lt hdivisor).mpr d.divisor_lt, Nat.log2_self_le hdivisor,
    Nat.lt_log2_self⟩

theorem powerCode_lt_infinity {k : Nat} (h : k ≤ 127) {f : BinaryFormat}
    (hf : f = .single ∨ f = .double) : f.powerCode k < f.infinity := by
  refine Nat.lt_of_le_of_lt (BinaryFormat.powerCode_mono h) ?_
  rcases hf with rfl | rfl <;> decide

theorem nearest_double_le {n k : Nat} (h : n ≤ 2 ^ k) :
    BinaryFormat.double.nearest n 1 ≤ BinaryFormat.double.powerCode k :=
  BinaryFormat.nearest_le_powerCode (by decide) (by decide) Nat.one_pos (by rwa [Nat.mul_one])

theorem le_nearest_double {n k : Nat} (hk : k ≤ 127) (h : 2 ^ k ≤ n) :
    BinaryFormat.double.powerCode k ≤ BinaryFormat.double.nearest n 1 :=
  BinaryFormat.powerCode_le_nearest (by decide) (by decide) Nat.one_pos
    (powerCode_lt_infinity hk (.inr rfl)).le (by rwa [Nat.mul_one])

/-- The number is less than `2 ^ 96`, and the roundings on the way to the double at most double
it twice. -/
theorem doubleCode_le (d : Decimal) : d.doubleCode ≤ BinaryFormat.double.powerCode 98 := by
  have hp : 0 < BinaryFormat.double.precision := by decide
  have he : 2 ≤ BinaryFormat.double.exponentBits := by decide
  -- the divisor lies between two powers of two
  obtain ⟨t, ht, hlower, hupper⟩ := d.exists_two_pow_le_divisor
  have hplaces := nearest_double_le hupper.le
  have hplaces' := le_nearest_double (by omega) hlower
  have hintegral : BinaryFormat.double.nearest (d.coefficient / d.divisor) 1 ≤
      BinaryFormat.double.powerCode 96 :=
    nearest_double_le (Nat.le_trans (Nat.div_le_self _ _) d.coefficient_lt.le)
  have hremainder : BinaryFormat.double.nearest (d.coefficient % d.divisor) 1 ≤
      BinaryFormat.double.powerCode (1 + t) := by
    have hlt := Nat.mod_lt d.coefficient d.divisor_pos
    rw [Nat.add_comm 1 t]
    exact nearest_double_le (Nat.le_trans hlt.le hupper.le)
  unfold doubleCode
  dsimp only
  split
  · exact Nat.le_trans hintegral (BinaryFormat.powerCode_mono (by decide))
  · have hfraction : _ ≤ BinaryFormat.double.powerCode 96 :=
      Nat.le_trans (BinaryFormat.div_le_powerCode hp he hremainder hplaces')
        (BinaryFormat.powerCode_mono (by decide))
    have hsum := BinaryFormat.add_le_powerCode hp he hintegral hfraction
    have hproduct := BinaryFormat.mul_le_powerCode hp he hsum hplaces
    have hround := BinaryFormat.roundHalfUp_le_powerCode hp he hproduct
    rw [show 96 + 1 + (t + 1) = 98 + t by omega] at hround
    exact BinaryFormat.div_le_powerCode hp he hround hplaces'

/-- No decimal becomes infinite in single precision. -/
theorem isFinite_toSingle (d : Decimal) : d.toSingle.isFinite = true := by
  have hdouble : d.doubleCode < BinaryFormat.double.infinity :=
    Nat.lt_of_le_of_lt d.doubleCode_le (powerCode_lt_infinity (by decide) (.inr rfl))
  have hcode : BinaryFormat.single.nearest (BinaryFormat.double.units d.doubleCode)
      BinaryFormat.double.unitsInOne ≤ BinaryFormat.single.powerCode 98 :=
    BinaryFormat.nearest_le_powerCode (by decide) (by decide) (BinaryFormat.unitsInOne_pos _)
      (BinaryFormat.units_le_of_le_powerCode (by decide) (by decide) d.doubleCode_le)
  exact Binary.isFinite_convert_ofCode hdouble
    (Nat.lt_of_le_of_lt hcode (powerCode_lt_infinity (by decide) (.inl rfl)))

end Decimal

end Dispatch
