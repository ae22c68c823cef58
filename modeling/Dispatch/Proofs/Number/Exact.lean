import Dispatch.Proofs.Number.Rounding

/-!
# Conversion without rounding

A fraction that is one of the magnitudes of a format is rounded to that magnitude. The double format
has every magnitude of the single format, so a single-precision number is what comes back when it
has been converted to double precision.

* `BinaryFormat.nearest_of_units`: a magnitude of the format is rounded to itself.
* `Single.convert_double_convert_single`: double precision and back.
-/

namespace Dispatch

namespace BinaryFormat

variable {f : BinaryFormat} {n d code : Nat}

/-! ### Magnitudes of a format -/

/-- A code lies below the first normal binade or at some place of a later one. -/
theorem units_cases (hp : 0 < f.precision) (code : Nat) :
    code < 2 ^ (f.precision - 1) ∧ f.units code = code ∨
      ∃ j m, m < 2 ^ (f.precision - 1) ∧ code = (j + 1) * 2 ^ (f.precision - 1) + m ∧
        f.units code = (2 ^ (f.precision - 1) + m) * 2 ^ j := by
  by_cases hsmall : code < 2 ^ (f.precision - 1)
  · exact .inl ⟨hsmall, units_of_lt hsmall⟩
  · have hpos := Nat.two_pow_pos (f.precision - 1)
    obtain ⟨j, hj⟩ := Nat.exists_eq_add_one.mpr (Nat.div_pos (Nat.not_lt.mp hsmall) hpos)
    have hm := Nat.mod_lt code hpos
    have hcode : code = (j + 1) * 2 ^ (f.precision - 1) + code % 2 ^ (f.precision - 1) := by
      rw [← hj, Nat.mul_comm, Nat.div_add_mod]
    refine .inr ⟨j, _, hm, hcode, ?_⟩
    conv_lhs => rw [hcode]
    exact units_binade hp j hm

theorem roundDiv_mul (hd : 0 < d) (k : Nat) : roundDiv (k * d) d = k :=
  Nat.le_antisymm (roundDiv_le hd (Nat.le_refl _)) (le_roundDiv hd (Nat.le_refl _))

/-- A fraction that is a magnitude of the format is rounded to it. -/
theorem nearest_of_units (hp : 0 < f.precision) (hd : 0 < d) (hcode : code ≤ f.infinity)
    (h : n * f.unitsInOne = f.units code * d) : f.nearest n d = code := by
  obtain ⟨p, hprecision⟩ : ∃ p, f.precision = p + 1 := Nat.exists_eq_add_one.mpr hp
  have hcases := units_cases hp code
  rw [nearest, h, Nat.mul_div_cancel _ hd]
  simp only [twoPow_eq, hprecision, Nat.add_sub_cancel, Nat.add_sub_add_right] at hcases ⊢
  rcases hcases with ⟨hsmall, hunits⟩ | ⟨j, m, hm, hj, hunits⟩
  · have hlog : code.log2 - p = 0 := by
      rcases Nat.eq_zero_or_pos code with rfl | hpos
      · rw [Nat.log2_zero, Nat.zero_sub]
      · exact Nat.sub_eq_zero_of_le ((Nat.log2_lt hpos.ne').mpr hsmall).le
    rw [hunits, hlog, Nat.pow_zero, Nat.mul_one, roundDiv_mul hd, Nat.zero_mul, Nat.zero_add]
    exact Nat.min_eq_right hcode
  · have hlog : ((2 ^ p + m) * 2 ^ j).log2 = p + j := by
      have hpos : (2 ^ p + m) * 2 ^ j ≠ 0 :=
        (Nat.mul_pos (Nat.add_pos_left (Nat.two_pow_pos p) m) (Nat.two_pow_pos j)).ne'
      refine (Nat.log2_eq_iff hpos).mpr ⟨?_, ?_⟩
      · rw [Nat.pow_add]
        exact Nat.mul_le_mul_right _ (Nat.le_add_right _ m)
      · rw [Nat.add_right_comm, Nat.pow_add, Nat.pow_succ]
        exact Nat.mul_lt_mul_of_pos_right (by omega) (Nat.two_pow_pos j)
    have hround : roundDiv ((2 ^ p + m) * 2 ^ j * d) (d * 2 ^ j) = 2 ^ p + m := by
      rw [Nat.mul_assoc, Nat.mul_comm (2 ^ j) d]
      exact roundDiv_mul (Nat.mul_pos hd (Nat.two_pow_pos j)) _
    rw [hunits, hlog, Nat.add_sub_cancel_left, hround]
    rw [show j * 2 ^ p + (2 ^ p + m) = code by rw [hj]; ring]
    exact Nat.min_eq_right hcode

/-! ### Magnitudes that two formats share -/

theorem two_pow_precision (hp : 0 < f.precision) :
    2 ^ f.precision = 2 ^ (f.precision - 1) * 2 := by
  rw [← Nat.pow_succ, Nat.succ_eq_add_one, Nat.sub_add_cancel hp]

/-- Magnitudes can be doubled, as long as infinity does not matter. -/
theorem exists_units_two_mul (hp : 0 < f.precision) (code : Nat) :
    ∃ code', f.units code' = 2 * f.units code := by
  rcases units_cases hp code with ⟨hsmall, hunits⟩ | ⟨j, m, hm, -, hunits⟩
  · refine ⟨2 * code, ?_⟩
    have hlt : 2 * code < 2 ^ f.precision := by
      rw [two_pow_precision hp]
      omega
    rw [hunits, units, twoPow_eq, if_pos hlt]
  · refine ⟨(j + 1 + 1) * 2 ^ (f.precision - 1) + m, ?_⟩
    rw [hunits, units_binade hp (j + 1) hm, Nat.pow_succ]
    ring

/-- A format has every number of as many significant bits, as long as infinity does not matter. -/
theorem exists_units_eq (hp : 0 < f.precision) {m : Nat} (hm : m < 2 ^ f.precision) (k : Nat) :
    ∃ code, f.units code = m * 2 ^ k := by
  induction k with
  | zero => exact ⟨m, by rw [units, twoPow_eq, if_pos hm, Nat.pow_zero, Nat.mul_one]⟩
  | succ k ih =>
    obtain ⟨code, hcode⟩ := ih
    obtain ⟨code', hcode'⟩ := exists_units_two_mul hp code
    refine ⟨code', ?_⟩
    rw [hcode', hcode, Nat.pow_succ]
    ring

/-- Every magnitude has as many significant bits as the format. -/
theorem exists_significand (hp : 0 < f.precision) (code : Nat) :
    ∃ m k, m < 2 ^ f.precision ∧ f.units code = m * 2 ^ k := by
  have hprecision := two_pow_precision hp
  rcases units_cases hp code with ⟨hsmall, hunits⟩ | ⟨j, m, hm, -, hunits⟩
  · exact ⟨code, 0, by omega, by rw [hunits, Nat.pow_zero, Nat.mul_one]⟩
  · exact ⟨2 ^ (f.precision - 1) + m, j, by omega, hunits⟩

/-- The least magnitude of a format with smaller exponents divides that of the other. -/
theorem exists_unitsInOne_eq {g : BinaryFormat}
    (h : 2 ^ (f.exponentBits - 1) + f.precision ≤ 2 ^ (g.exponentBits - 1) + g.precision) :
    ∃ k, g.unitsInOne = f.unitsInOne * 2 ^ k := by
  obtain ⟨k, hk⟩ := Nat.exists_eq_add_of_le (Nat.sub_le_sub_right h 3)
  refine ⟨k, ?_⟩
  simp only [unitsInOne, twoPow_eq]
  rw [hk, Nat.pow_add]

/-- Every finite magnitude of single precision is a finite one of double precision. -/
theorem exists_double_code (h : code < single.infinity) :
    ∃ code', code' < double.infinity ∧
      double.units code' * single.unitsInOne = single.units code * double.unitsInOne := by
  have hsingle : 0 < single.precision := by decide
  have hdouble : 0 < double.precision := by decide
  obtain ⟨m, k, hm, hunits⟩ := exists_significand hsingle code
  obtain ⟨l, hfiner⟩ := exists_unitsInOne_eq (f := single) (g := double) (by decide)
  have hwide : m < 2 ^ double.precision := Nat.lt_of_lt_of_le hm (by decide)
  obtain ⟨code', hcode'⟩ := exists_units_eq hdouble hwide (k + l)
  have hsame : double.units code' = single.units code * 2 ^ l := by
    rw [hcode', hunits, Nat.pow_add, Nat.mul_assoc]
  refine ⟨code', ?_, ?_⟩
  · -- the magnitude is below the power of two at which single precision ends
    have hbelow : single.units code < 2 ^ 128 * single.unitsInOne := by
      rw [← units_powerCode hsingle (by decide)]
      exact units_strictMono hsingle (Nat.lt_of_lt_of_le h (by decide))
    have hlt : double.units code' < double.units (double.powerCode 128) := by
      rw [hsame, units_powerCode hdouble (by decide), hfiner, ← Nat.mul_assoc]
      exact Nat.mul_lt_mul_of_pos_right hbelow (Nat.two_pow_pos _)
    exact Nat.lt_trans ((units_strictMono hdouble).lt_iff_lt.mp hlt) (by decide)
  · rw [hsame, hfiner]
    ring

end BinaryFormat

/-! ### Numbers -/

namespace Binary

variable {f g : BinaryFormat} {negative : Bool}

theorem convert_infinity :
    (ofCode negative f.infinity : Binary f).convert g = ofCode negative g.infinity := by
  simp [ofCode, convert]

/-- A number whose magnitude both formats have is the same number in the other format. -/
theorem convert_of_units (hp : 0 < g.precision) {a b : Nat} (ha : a < f.infinity)
    (hb : b ≤ g.infinity) (h : g.units b * f.unitsInOne = f.units a * g.unitsInOne) :
    (ofCode negative a : Binary f).convert g = ofCode negative b := by
  have hnearest : g.nearest (f.units a) f.unitsInOne = b :=
    BinaryFormat.nearest_of_units hp f.unitsInOne_pos hb h.symm
  simp only [ofCode, convert, Nat.min_eq_left ha.le, if_neg ha.ne, ofFraction, hnearest]

end Binary

/-- A single-precision number comes back from double precision. -/
theorem Single.convert_double_convert_single (x : Single) :
    Binary.convert .single (Binary.convert .double x) = x := by
  rcases x with _ | ⟨negative, code⟩
  · rfl
  · have hx : Binary.number negative code = (Binary.ofCode negative code : Single) := by
      simp [Binary.ofCode, Nat.min_eq_left (Nat.le_of_lt_succ code.isLt)]
    rw [hx]
    rcases Nat.lt_or_eq_of_le (Nat.le_of_lt_succ code.isLt) with hlt | heq
    · obtain ⟨code', hcode', hunits⟩ := BinaryFormat.exists_double_code hlt
      rw [Binary.convert_of_units (by decide) hlt hcode'.le hunits,
        Binary.convert_of_units (by decide) hcode' hlt.le hunits.symm]
    · rw [heq, Binary.convert_infinity, Binary.convert_infinity]

end Dispatch
