import Dispatch.Conversion
import Dispatch.Proofs.Number.Decimals
import Mathlib.Algebra.Order.Ring.Int

/-!
# The integer types and decimals

A decimal is ranked by the number that it denotes: at the first integer type with room for it, and
as a single-precision number if it has a fraction or no integer type has room. An implicit
conversion climbs the ladder of ranks, so an integer parameter takes a decimal exactly if it has
room for it.

* `Decimal.exists_rank?`: the rank of a decimal.
* `Decimal.rank?_and_passes_iff`: the ranks of decimals, and the parameters that take them.
-/

namespace Dispatch

/-! ### The integer types -/

/-- The number of bits of an integer rank, one of them for the sign. -/
def Rank.bits? : Rank → Option Nat
  | .byte => some 8
  | .short => some 16
  | .int => some 32
  | .long => some 64
  | .char | .float | .double => none

/-- A higher rank among the integers is at least as wide. -/
theorem Rank.bits_le_of_le {r s : Rank} {m n : Nat} (hr : r.bits? = some m)
    (hs : s.bits? = some n) (h : r ≤ s) : m ≤ n := by
  revert h
  cases r <;> cases hr <;> cases s <;> cases hs <;> decide

/-- A strictly higher rank among the integers is at least twice as wide. -/
theorem Rank.two_mul_bits_le_of_lt {r s : Rank} {m n : Nat} (hr : r.bits? = some m)
    (hs : s.bits? = some n) (h : r < s) : 2 * m ≤ n := by
  revert h
  cases r <;> cases hr <;> cases s <;> cases hs <;> decide

theorem Rank.bits_le {r : Rank} {n : Nat} (h : r.bits? = some n) : n ≤ 64 := by
  cases r <;> cases h <;> decide

theorem Rank.ne_char_of_bits? {r : Rank} {n : Nat} (h : r.bits? = some n) : r ≠ .char := by
  rintro rfl
  cases h

theorem Rank.lt_float_of_bits? {r : Rank} {n : Nat} (h : r.bits? = some n) : r < .float := by
  cases r <;> cases h <;> decide

theorem Rank.le_of_not_lt {r s : Rank} (h : ¬ r < s) : s ≤ r := Nat.le_of_not_lt h

theorem Rank.not_lt_of_le {r s : Rank} (h : r ≤ s) : ¬ s < r := Nat.not_lt_of_le h

theorem fitsSigned_iff {bits : Nat} {i : Int} :
    fitsSigned bits i = true ↔ -2 ^ (bits - 1) ≤ i ∧ i < 2 ^ (bits - 1) := by
  have hcast : ((twoPow (bits - 1) : Nat) : Int) = 2 ^ (bits - 1) := by
    rw [twoPow_eq]
    exact_mod_cast rfl
  rw [fitsSigned, Bool.and_eq_true, decide_eq_true_eq, decide_eq_true_eq, hcast]

/-- What fits into some bits fits into more. -/
theorem fitsSigned_mono {m n : Nat} {i : Int} (hmn : m ≤ n) (h : fitsSigned m i = true) :
    fitsSigned n i = true := by
  have hpow : (2 : ℤ) ^ (m - 1) ≤ 2 ^ (n - 1) := pow_le_pow_right₀ (by decide) (by omega)
  rw [fitsSigned_iff] at h ⊢
  omega

/-! ### Scores -/

/-- Except for characters, a rank is taken by the ranks from its own on. -/
theorem rankScore?_isSome_iff {a p : Rank} {param : Ty} (hp : p ≠ .char) :
    (rankScore? a p param).isSome = true ↔ a ≤ p := by
  unfold rankScore?
  split_ifs with heq hlt
  · exact iff_of_true rfl (heq ▸ Nat.le_refl _)
  · exact iff_of_true rfl (Nat.le_of_lt hlt)
  · have hheight : a.height ≠ p.height := fun h => heq (Rank.height_injective h)
    refine iff_of_false (by decide) fun hle => hlt ?_
    exact Nat.lt_of_le_of_ne hle hheight

/-- A boxed character takes characters alone. -/
theorem rankScore?_boxed_char {a : Rank} (ha : a ≠ .char) :
    rankScore? a .char (.boxed .char) = none := by
  simp [rankScore?, ha, Ty.isRaw]

/-- A raw character takes characters and the ranks up to `int`. -/
theorem rankScore?_raw_char_isSome_iff {a : Rank} :
    (rankScore? a .char (.raw .char)).isSome = true ↔ a ≤ .int := by
  cases a <;> decide

namespace Decimal

variable {d e : Decimal}

/-! ### The rank of a decimal -/

/-- The decimal is an integer that `bits` bits hold, one of them for the sign. -/
def Fits (bits : Nat) (d : Decimal) : Prop :=
  ∃ i : ℤ, d.value = i ∧ -2 ^ (bits - 1) ≤ i ∧ i < 2 ^ (bits - 1)

theorem Fits.mono {m n : Nat} (hmn : m ≤ n) (h : d.Fits m) : d.Fits n := by
  obtain ⟨i, hi, hfits⟩ := h
  exact ⟨i, hi, fitsSigned_iff.mp (fitsSigned_mono hmn (fitsSigned_iff.mpr hfits))⟩

/-- The two tests made of a decimal are its fitting as a number. -/
theorem isWhole_and_fitsSigned_iff {bits : Nat} :
    (d.isWhole && fitsSigned bits d.truncate) = true ↔ d.Fits bits := by
  rw [Bool.and_eq_true, fitsSigned_iff]
  constructor
  · rintro ⟨hwhole, hfits⟩
    exact ⟨d.truncate, value_eq_intCast_iff.mpr ⟨hwhole, rfl⟩, hfits⟩
  · rintro ⟨i, hi, hfits⟩
    obtain ⟨hwhole, rfl⟩ := value_eq_intCast_iff.mp hi
    exact ⟨hwhole, hfits⟩

/-- The rank is the first integer rank with room for the decimal, or `float` if there is none. -/
def RanksAt (d : Decimal) (r : Rank) : Prop :=
  match r.bits? with
  | some bits => d.Fits bits ∧ ∀ (s : Rank) n, s.bits? = some n → s < r → ¬ d.Fits n
  | none => r = .float ∧ ∀ (s : Rank) n, s.bits? = some n → ¬ d.Fits n

/-- The integer types are tried from the narrowest on, and each is at least twice as wide as the
ones before it. -/
theorem exists_rank? (d : Decimal) : ∃ r, d.rank? = some r ∧ d.RanksAt r := by
  have hfinite := d.isFinite_toSingle
  have hnot : ∀ {m n}, ¬ (d.isWhole && fitsSigned m d.truncate) = true → n ≤ m → ¬ d.Fits n :=
    fun h hle hfits => h (isWhole_and_fitsSigned_iff.mpr (hfits.mono hle))
  unfold rank?
  split_ifs with h8 h16 h32 h64
  · refine ⟨.byte, rfl, isWhole_and_fitsSigned_iff.mp h8, fun s n _ hlt => ?_⟩
    exact absurd hlt (Nat.not_lt_zero _)
  · refine ⟨.short, rfl, isWhole_and_fitsSigned_iff.mp h16, fun s n hs hlt => hnot h8 ?_⟩
    have hwide := Rank.two_mul_bits_le_of_lt hs rfl hlt
    omega
  · refine ⟨.int, rfl, isWhole_and_fitsSigned_iff.mp h32, fun s n hs hlt => hnot h16 ?_⟩
    have hwide := Rank.two_mul_bits_le_of_lt hs rfl hlt
    omega
  · refine ⟨.long, rfl, isWhole_and_fitsSigned_iff.mp h64, fun s n hs hlt => hnot h32 ?_⟩
    have hwide := Rank.two_mul_bits_le_of_lt hs rfl hlt
    omega
  · exact ⟨.float, rfl, rfl, fun s n hs => hnot h64 (Rank.bits_le hs)⟩

/-- The ladder up to an integer rank holds the decimals that fit it. -/
theorem RanksAt.le_iff {r s : Rank} {bits : Nat} (h : d.RanksAt r) (hs : s.bits? = some bits) :
    r ≤ s ↔ d.Fits bits := by
  unfold RanksAt at h
  split at h
  · next n hr =>
    constructor
    · intro hle
      exact h.1.mono (Rank.bits_le_of_le hr hs hle)
    · intro hfits
      exact Rank.le_of_not_lt fun hlt => h.2 s bits hs hlt hfits
  · rw [h.1]
    exact iff_of_false (Rank.not_lt_of_le · (Rank.lt_float_of_bits? hs)) (h.2 s bits hs)

/-- The first integer type is chosen by the numbers that it has room for. -/
theorem rank?_congr (h : d.value = e.value) : d.rank? = e.rank? := by
  have hfits : ∀ bits, d.Fits bits ↔ e.Fits bits := fun bits => by simp only [Fits, h]
  have hsingle : d.toSingle.isFinite = e.toSingle.isFinite := by
    rw [d.isFinite_toSingle, e.isFinite_toSingle]
  have hbool : ∀ bits, (d.isWhole && fitsSigned bits d.truncate) =
      (e.isWhole && fitsSigned bits e.truncate) := fun bits => by
    rw [Bool.eq_iff_iff, isWhole_and_fitsSigned_iff, isWhole_and_fitsSigned_iff, hfits]
  simp only [rank?, hbool, hsingle, e.isFinite_toSingle, if_true]

/-! ### Parameters that take decimals -/

/-- A parameter takes the decimal as a number. -/
def PassesTo (recast : Bool) (d : Decimal) (param : Ty) : Prop :=
  (numericScore? recast (.decimal d) .decimal param).isSome = true

/-- A decimal passes to a parameter exactly if the rank of its value has a score there. -/
theorem passesTo_iff {param : Ty} {r p : Rank} (hr : d.rank? = some r)
    (hp : param.rank? = some p) :
    d.PassesTo true param ↔ (rankScore? r p param).isSome = true := by
  simp [PassesTo, numericScore?, argumentRank?, hr, hp]

/-- Ranked by its type, a decimal is no number. -/
theorem not_passesTo_of_not_recast (d : Decimal) (param : Ty) : ¬ d.PassesTo false param := by
  cases hp : param.rank? <;> simp [PassesTo, numericScore?, argumentRank?, Ty.rank?, Ty.prim?]

/-- A decimal is ranked at the first integer type with room for it, and at `float` if there is
none, whatever its trailing zeros. With the recast, the integer parameters take exactly the
decimals that they have room for, the floating-point parameters take all of them and a boxed
character none; without, no parameter takes a decimal as a number. -/
theorem rank?_and_passes_iff (d : Decimal) :
    (∃ r, d.rank? = some r ∧ d.RanksAt r ∧ r ≠ .char ∧ r ≠ .double) ∧
    (∀ e : Decimal, d.equal e = true → e.rank? = d.rank?) ∧
    (∀ param r bits, param.rank? = some r → r.bits? = some bits →
      (d.PassesTo true param ↔ d.Fits bits)) ∧
    (∀ param, param.rank? = some .float ∨ param.rank? = some .double → d.PassesTo true param) ∧
    ¬ d.PassesTo true (.boxed .char) ∧
    (d.PassesTo true (.raw .char) ↔ d.Fits 32) ∧
    ∀ param, ¬ d.PassesTo false param := by
  obtain ⟨r, hr, hat⟩ := d.exists_rank?
  have hchar : r ≠ .char := by
    rintro rfl
    exact absurd hat.1 (by decide)
  have hle : r ≤ .float := by
    unfold RanksAt at hat
    split at hat
    · next hbits => exact Nat.le_of_lt (Rank.lt_float_of_bits? hbits)
    · exact hat.1 ▸ Nat.le_refl _
  refine ⟨⟨r, hr, hat, hchar, ?_⟩, ?_, ?_, ?_, ?_, ?_, d.not_passesTo_of_not_recast⟩
  · rintro rfl
    exact absurd hle (by decide)
  · intro e he
    exact rank?_congr (equal_iff.mp he).symm
  · intro param p bits hp hbits
    rw [passesTo_iff hr hp, rankScore?_isSome_iff (Rank.ne_char_of_bits? hbits), hat.le_iff hbits]
  · rintro param (hp | hp)
    · rw [passesTo_iff hr hp, rankScore?_isSome_iff (by decide)]
      exact hle
    · rw [passesTo_iff hr hp, rankScore?_isSome_iff (by decide)]
      exact Nat.le_trans hle (by decide)
  · rw [passesTo_iff hr rfl, rankScore?_boxed_char hchar]
    decide
  · rw [passesTo_iff hr rfl, rankScore?_raw_char_isSome_iff, hat.le_iff rfl]

/-- One hundred, written with two places. -/
def hundred : Decimal := { negative := false, coefficient := 10000, scale := 2 }

/-- The places of `100.00` neither change its rank nor keep it from a `byte` parameter. -/
theorem rank?_and_passes_iff_hundred :
    ({ negative := false, coefficient := 100, scale := 0 } : Decimal).rank? = hundred.rank? ∧
      hundred.Fits 8 ∧ hundred.PassesTo true (.raw .byte) ∧
      hundred.PassesTo true (.boxed .double) := by
  have hfits : hundred.Fits 8 := isWhole_and_fitsSigned_iff.mp (by decide)
  obtain ⟨-, hequal, hinteger, hfloating, -⟩ := rank?_and_passes_iff hundred
  exact ⟨hequal _ (by decide), hfits, (hinteger (.raw .byte) .byte 8 rfl rfl).mpr hfits,
    hfloating (.boxed .double) (.inr rfl)⟩

end Decimal

end Dispatch
