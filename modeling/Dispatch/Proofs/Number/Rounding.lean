import Dispatch.Number.Binary
import Mathlib.Order.Monotone.Basic
import Mathlib.Tactic.Ring

/-!
# Rounding and powers of two

A power of two that a format can represent is never passed by rounding: what is at most the power
rounds to at most the power, and what is at least the power to at least the power. This is all that
is needed to see that a computation in floating-point arithmetic stays away from infinity.

* `BinaryFormat.units_strictMono`: codes are ordered as the magnitudes that they stand for.
* `BinaryFormat.units_powerCode`: the codes of the powers of two, from one on.
* `BinaryFormat.nearest_le_powerCode`, `BinaryFormat.powerCode_le_nearest`: the two bounds.
* `BinaryFormat.add_le_powerCode` and its companions: the bounds of the arithmetic on codes.
-/

namespace Dispatch

theorem twoPow_eq (n : Nat) : twoPow n = 2 ^ n := rfl

namespace BinaryFormat

variable {f : BinaryFormat} {k n d : Nat}

/-! ### Magnitudes of codes -/

theorem units_of_lt {code : Nat} (h : code < 2 ^ (f.precision - 1)) : f.units code = code := by
  have hle : 2 ^ (f.precision - 1) ≤ 2 ^ f.precision :=
    Nat.pow_le_pow_right (by decide) (Nat.sub_le _ _)
  rw [units, twoPow_eq, if_pos (Nat.lt_of_lt_of_le h hle)]

/-- From the first normal binade on, the binade of a code is its quotient. -/
theorem units_binade (hp : 0 < f.precision) (j : Nat) {m : Nat}
    (hm : m < 2 ^ (f.precision - 1)) :
    f.units ((j + 1) * 2 ^ (f.precision - 1) + m) = (2 ^ (f.precision - 1) + m) * 2 ^ j := by
  obtain ⟨p, hprecision⟩ : ∃ p, f.precision = p + 1 := Nat.exists_eq_add_one.mpr hp
  simp only [units, twoPow_eq, hprecision, Nat.add_sub_cancel] at hm ⊢
  have hmod : ((j + 1) * 2 ^ p + m) % 2 ^ p = m := by
    rw [Nat.mul_comm, Nat.mul_add_mod, Nat.mod_eq_of_lt hm]
  have hdiv : ((j + 1) * 2 ^ p + m) / 2 ^ p = j + 1 := by
    rw [Nat.mul_comm, Nat.mul_add_div (Nat.two_pow_pos p), Nat.div_eq_of_lt hm, Nat.add_zero]
  rw [hmod, hdiv, Nat.add_sub_cancel]
  split
  · next hlt =>
    -- only the first binade lies below the point where the distance doubles
    have hj : j = 0 := by
      by_contra hne
      have htwo : 2 * 2 ^ p ≤ (j + 1) * 2 ^ p := Nat.mul_le_mul_right _ (by omega)
      rw [Nat.pow_succ] at hlt
      omega
    rw [hj]
    ring
  · rfl

/-- A larger code stands for a larger magnitude. -/
theorem units_strictMono (hp : 0 < f.precision) : StrictMono f.units := by
  refine strictMono_nat_of_lt_succ fun code => ?_
  by_cases hsmall : code < 2 ^ (f.precision - 1)
  · rw [units_of_lt hsmall]
    by_cases hnext : code + 1 < 2 ^ (f.precision - 1)
    · rw [units_of_lt hnext]
      exact Nat.lt_succ_self code
    · have hfirst : code + 1 = (0 + 1) * 2 ^ (f.precision - 1) + 0 := by omega
      rw [hfirst, units_binade hp 0 (Nat.two_pow_pos _)]
      omega
  · generalize hq : 2 ^ (f.precision - 1) = q at hsmall
    have hpos : 0 < q := hq ▸ Nat.two_pow_pos _
    have hbinade : ∀ j {m}, m < q → f.units ((j + 1) * q + m) = (q + m) * 2 ^ j := by
      subst hq
      exact fun j _ hm => units_binade hp j hm
    obtain ⟨j, hj⟩ : ∃ j, code / q = j + 1 :=
      Nat.exists_eq_add_one.mpr (Nat.div_pos (Nat.not_lt.mp hsmall) hpos)
    have hcode : code = (j + 1) * q + code % q := by
      rw [← hj, Nat.mul_comm, Nat.div_add_mod]
    have hm : code % q < q := Nat.mod_lt _ hpos
    generalize code % q = m at hcode hm
    subst hcode
    rw [hbinade j hm]
    by_cases hnext : m + 1 < q
    · rw [Nat.add_assoc, hbinade j hnext]
      exact Nat.mul_lt_mul_of_pos_right (by omega) (Nat.two_pow_pos j)
    · have hdouble : (j + 1) * q + m + 1 = (j + 1 + 1) * q + 0 := by
        rw [Nat.add_mul (j + 1) 1 q]
        omega
      rw [hdouble, hbinade (j + 1) hpos, Nat.pow_succ, Nat.add_zero, Nat.mul_comm _ 2,
        ← Nat.mul_assoc]
      exact Nat.mul_lt_mul_of_pos_right (by omega) (Nat.two_pow_pos j)

theorem units_le_units (hp : 0 < f.precision) {a b : Nat} (h : a ≤ b) : f.units a ≤ f.units b :=
  (units_strictMono hp).monotone h

theorem unitsInOne_pos (f : BinaryFormat) : 0 < f.unitsInOne := Nat.two_pow_pos _

/-! ### Powers of two -/

/-- The code of the `k`-th power of two. -/
def powerCode (f : BinaryFormat) (k : Nat) : Nat :=
  (k + (2 ^ (f.exponentBits - 1) - 1)) * 2 ^ (f.precision - 1)

theorem powerCode_mono : Monotone f.powerCode :=
  fun _ _ h => Nat.mul_le_mul_right _ (Nat.add_le_add_right h _)

/-- There are negative exponents, and so no power of two from one on is subnormal. -/
theorem two_le_two_pow (he : 2 ≤ f.exponentBits) : 2 ≤ 2 ^ (f.exponentBits - 1) := by
  have hle : 2 ^ 1 ≤ 2 ^ (f.exponentBits - 1) := Nat.pow_le_pow_right (by decide) (by omega)
  simpa using hle

/-- The exponent of a power of two, counted in least positive magnitudes. -/
theorem exists_exponent (hp : 0 < f.precision) (he : 2 ≤ f.exponentBits) (k : Nat) :
    ∃ j, f.powerCode k = (j + 1) * 2 ^ (f.precision - 1) ∧
      2 ^ k * f.unitsInOne = 2 ^ (f.precision - 1 + j) := by
  have hhalf := two_le_two_pow he
  refine ⟨k + 2 ^ (f.exponentBits - 1) - 2, ?_, ?_⟩
  · unfold powerCode
    congr 1
    omega
  · simp only [unitsInOne, twoPow_eq, ← Nat.pow_add]
    congr 1
    omega

/-- The code of a power of two stands for that power. -/
theorem units_powerCode (hp : 0 < f.precision) (he : 2 ≤ f.exponentBits) (k : Nat) :
    f.units (f.powerCode k) = 2 ^ k * f.unitsInOne := by
  obtain ⟨j, hcode, hunits⟩ := exists_exponent hp he k
  have hbinade := units_binade hp j (Nat.two_pow_pos (f.precision - 1))
  simp only [Nat.add_zero] at hbinade
  rw [hcode, hunits, hbinade, Nat.pow_add]

/-! ### Rounding -/

/-- What is at most a whole number rounds to at most that number. -/
theorem roundDiv_le (hd : 0 < d) (h : n ≤ k * d) : roundDiv n d ≤ k := by
  have hle : n / d ≤ k := Nat.div_le_of_le_mul (by rwa [Nat.mul_comm])
  unfold roundDiv
  split
  · exact hle
  · next hnot =>
    -- a quotient that is rounded upwards is not exact, and so below the bound
    have hrem : n % d ≠ 0 := fun h0 => hnot (.inl (by rw [h0]; exact hd))
    have hne : n / d ≠ k := by
      rintro rfl
      have hsplit := Nat.div_add_mod n d
      rw [Nat.mul_comm] at hsplit
      omega
    omega

/-- What is at least a whole number rounds to at least that number. -/
theorem le_roundDiv (hd : 0 < d) (h : k * d ≤ n) : k ≤ roundDiv n d := by
  have hle : k ≤ n / d := (Nat.le_div_iff_mul_le hd).mpr h
  unfold roundDiv
  split <;> omega

/-- What is left of a quotient after dropping bits has at most `p + 1` of them. -/
theorem le_two_pow_mul_dropped (hd : 0 < d) (n p : Nat) :
    n ≤ 2 ^ (p + 1) * (d * 2 ^ ((n / d).log2 - p)) := by
  have hquotient : n / d < 2 ^ (p + 1 + ((n / d).log2 - p)) :=
    Nat.lt_of_lt_of_le Nat.lt_log2_self (Nat.pow_le_pow_right (by decide) (by omega))
  calc n ≤ 2 ^ (p + 1 + ((n / d).log2 - p)) * d := ((Nat.div_lt_iff_lt_mul hd).mp hquotient).le
    _ = 2 ^ (p + 1) * (d * 2 ^ ((n / d).log2 - p)) := by rw [Nat.pow_add]; ring

theorem log2_div_sub_le {j p : Nat} (h : n ≤ 2 ^ (p + j) * d) : (n / d).log2 - p ≤ j := by
  by_cases hzero : n / d = 0
  · rw [hzero]
    exact Nat.le_trans (Nat.sub_le _ _) (Nat.zero_le _)
  · have hquotient : n / d ≤ 2 ^ (p + j) := Nat.div_le_of_le_mul (by rwa [Nat.mul_comm])
    have hlog := Nat.le_trans (Nat.log2_self_le hzero) hquotient
    exact Nat.sub_le_of_le_add
      (Nat.add_comm p j ▸ (Nat.pow_le_pow_iff_right (by decide)).mp hlog)

/-- What is at most a power of two rounds to at most that power. -/
theorem nearest_le_powerCode (hp : 0 < f.precision) (he : 2 ≤ f.exponentBits) (hd : 0 < d)
    (h : n ≤ 2 ^ k * d) : f.nearest n d ≤ f.powerCode k := by
  obtain ⟨j, hcode, hunits⟩ := exists_exponent hp he k
  obtain ⟨p, hprecision⟩ : ∃ p, f.precision = p + 1 := Nat.exists_eq_add_one.mpr hp
  rw [hprecision, Nat.add_sub_cancel] at hcode hunits
  have hle : n * f.unitsInOne ≤ 2 ^ (p + j) * d := by
    calc n * f.unitsInOne ≤ 2 ^ k * d * f.unitsInOne := Nat.mul_le_mul_right _ h
      _ = 2 ^ (p + j) * d := by rw [← hunits]; ring
  rw [hcode, nearest, hprecision, Nat.add_sub_cancel, Nat.add_sub_add_right]
  simp only [twoPow_eq]
  refine Nat.le_trans (Nat.min_le_right _ _) ?_
  generalize n * f.unitsInOne = n at hle
  have hshort := le_two_pow_mul_dropped hd n p
  have hbits := log2_div_sub_le hle
  generalize (n / d).log2 - p = dropped at hshort hbits
  have hscale : 0 < d * 2 ^ dropped := Nat.mul_pos hd (Nat.two_pow_pos _)
  rcases Nat.lt_or_eq_of_le hbits with hlt | rfl
  · have hround := roundDiv_le hscale hshort
    have hstep : dropped * 2 ^ p + 2 ^ (p + 1) = (dropped + 1 + 1) * 2 ^ p := by ring
    have hmul : (dropped + 1 + 1) * 2 ^ p ≤ (j + 1) * 2 ^ p := Nat.mul_le_mul_right _ (by omega)
    omega
  · -- in the last binade the bound itself is left
    have hround : roundDiv n (d * 2 ^ dropped) ≤ 2 ^ p := by
      refine roundDiv_le hscale (Nat.le_trans hle (Nat.le_of_eq ?_))
      rw [Nat.pow_add]
      ring
    rw [Nat.add_mul]
    omega

/-- What is at least a power of two that is finite rounds to at least that power. -/
theorem powerCode_le_nearest (hp : 0 < f.precision) (he : 2 ≤ f.exponentBits) (hd : 0 < d)
    (hfinite : f.powerCode k ≤ f.infinity) (h : 2 ^ k * d ≤ n) :
    f.powerCode k ≤ f.nearest n d := by
  obtain ⟨j, hcode, hunits⟩ := exists_exponent hp he k
  obtain ⟨p, hprecision⟩ : ∃ p, f.precision = p + 1 := Nat.exists_eq_add_one.mpr hp
  rw [hprecision, Nat.add_sub_cancel] at hcode hunits
  have hle : 2 ^ (p + j) * d ≤ n * f.unitsInOne := by
    calc 2 ^ (p + j) * d = 2 ^ k * d * f.unitsInOne := by rw [← hunits]; ring
      _ ≤ n * f.unitsInOne := Nat.mul_le_mul_right _ h
  refine Nat.le_min.mpr ⟨hfinite, ?_⟩
  rw [hcode, hprecision, Nat.add_sub_cancel, Nat.add_sub_add_right]
  simp only [twoPow_eq]
  generalize n * f.unitsInOne = n at hle
  have hquotient : 2 ^ (p + j) ≤ n / d := (Nat.le_div_iff_mul_le hd).mpr hle
  have hzero : n / d ≠ 0 := Nat.ne_of_gt (Nat.lt_of_lt_of_le (Nat.two_pow_pos _) hquotient)
  have hlog : p + j ≤ (n / d).log2 := (Nat.le_log2 hzero).mpr hquotient
  obtain ⟨dropped, hdropped⟩ : ∃ dropped, (n / d).log2 = p + dropped :=
    Nat.exists_eq_add_of_le (Nat.le_trans (Nat.le_add_right p j) hlog)
  have hround : 2 ^ p ≤ roundDiv n (d * 2 ^ dropped) := by
    refine le_roundDiv (Nat.mul_pos hd (Nat.two_pow_pos _)) ?_
    have hself := Nat.log2_self_le hzero
    rw [hdropped] at hself
    calc 2 ^ p * (d * 2 ^ dropped) = 2 ^ (p + dropped) * d := by rw [Nat.pow_add]; ring
      _ ≤ n := (Nat.le_div_iff_mul_le hd).mp hself
  have hbits : j ≤ dropped := by omega
  have hmul : j * 2 ^ p ≤ dropped * 2 ^ p := Nat.mul_le_mul_right _ hbits
  rw [hdropped, Nat.add_sub_cancel_left, Nat.add_mul]
  omega

/-! ### Arithmetic -/

section Arithmetic

variable {a b l : Nat} (hp : 0 < f.precision) (he : 2 ≤ f.exponentBits)

include hp he

theorem units_le_of_le_powerCode (h : a ≤ f.powerCode k) : f.units a ≤ 2 ^ k * f.unitsInOne := by
  rw [← units_powerCode hp he]
  exact units_le_units hp h

/-- A sum of two numbers up to a power of two is at most the next one, rounding included. -/
theorem add_le_powerCode (ha : a ≤ f.powerCode k) (hb : b ≤ f.powerCode k) :
    f.add a b ≤ f.powerCode (k + 1) := by
  have hunits := units_le_of_le_powerCode hp he ha
  have hunits' := units_le_of_le_powerCode hp he hb
  refine nearest_le_powerCode hp he f.unitsInOne_pos ?_
  calc f.units a + f.units b ≤ 2 ^ k * f.unitsInOne + 2 ^ k * f.unitsInOne :=
        Nat.add_le_add hunits hunits'
    _ = 2 ^ (k + 1) * f.unitsInOne := by ring

/-- A product is at most the product of the bounds. -/
theorem mul_le_powerCode (ha : a ≤ f.powerCode k) (hb : b ≤ f.powerCode l) :
    f.mul a b ≤ f.powerCode (k + l) := by
  have hunits := units_le_of_le_powerCode hp he ha
  have hunits' := units_le_of_le_powerCode hp he hb
  refine nearest_le_powerCode hp he (Nat.mul_pos f.unitsInOne_pos f.unitsInOne_pos) ?_
  calc f.units a * f.units b ≤ 2 ^ k * f.unitsInOne * (2 ^ l * f.unitsInOne) :=
        Nat.mul_le_mul hunits hunits'
    _ = 2 ^ (k + l) * (f.unitsInOne * f.unitsInOne) := by ring

/-- A quotient is at most the quotient of the bounds. -/
theorem div_le_powerCode (ha : a ≤ f.powerCode (k + l)) (hb : f.powerCode l ≤ b) :
    f.div a b ≤ f.powerCode k := by
  have hunits := units_le_of_le_powerCode hp he ha
  have hunits' : 2 ^ l * f.unitsInOne ≤ f.units b := by
    rw [← units_powerCode hp he]
    exact units_le_units hp hb
  have hpos : 0 < 2 ^ l * f.unitsInOne := Nat.mul_pos (Nat.two_pow_pos l) f.unitsInOne_pos
  refine nearest_le_powerCode hp he (Nat.lt_of_lt_of_le hpos hunits') ?_
  calc f.units a ≤ 2 ^ (k + l) * f.unitsInOne := hunits
    _ = 2 ^ k * (2 ^ l * f.unitsInOne) := by ring
    _ ≤ 2 ^ k * f.units b := Nat.mul_le_mul_left _ hunits'

theorem roundHalfUp_le_powerCode (ha : a ≤ f.powerCode k) : f.roundHalfUp a ≤ f.powerCode k := by
  have hunits := units_le_of_le_powerCode hp he ha
  have hone := f.unitsInOne_pos
  refine nearest_le_powerCode hp he Nat.one_pos ?_
  rw [Nat.mul_one, ← Nat.lt_succ_iff, Nat.div_lt_iff_lt_mul (by omega), Nat.succ_eq_add_one]
  calc 2 * f.units a + f.unitsInOne < 2 * (2 ^ k * f.unitsInOne) + 2 * f.unitsInOne := by omega
    _ = (2 ^ k + 1) * (2 * f.unitsInOne) := by ring

end Arithmetic

end BinaryFormat

/-- A finite number stays finite in a format whose infinity the rounding does not reach. -/
theorem Binary.isFinite_convert_ofCode {f g : BinaryFormat} {negative : Bool} {code : Nat}
    (hcode : code < f.infinity) (h : g.nearest (f.units code) f.unitsInOne < g.infinity) :
    ((ofCode negative code : Binary f).convert g).isFinite = true := by
  simp only [ofCode, convert, Nat.min_eq_left hcode.le, if_neg hcode.ne, ofFraction, isFinite,
    Nat.min_eq_left h.le, decide_eq_true_eq]
  exact h

end Dispatch
