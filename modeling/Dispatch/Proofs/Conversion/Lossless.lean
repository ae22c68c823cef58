import Dispatch.Proofs.Conversion.Accepted
import Dispatch.Proofs.Conversion.Decimals

/-!
# Conversion to the integer types

Conversion to an integer type may wrap, clamp and truncate, but not on a number that a parameter of
that type accepts: acceptance leaves no rank above the parameter's, and a rank up to an integer
rank is that of an integer with room in it. Here the number behind a value is a rational, so that
integers, characters, floating-point numbers and decimals can be compared.

* `Value.exists_integer_of_accepted`: what an integer parameter accepts is an integer it has room
  for.
* `Value.coerce_integer_lossless`: its conversion denotes the same integer.
* `Registry.coerce_raw_integer`: the same of all that a raw integer parameter accepts.
-/

namespace Dispatch

/-! ### The number behind a value -/

/-- The number that a finite floating-point number denotes. -/
def Binary.value? {f : BinaryFormat} : Binary f → Option ℚ
  | nan => none
  | number negative code =>
    if code.val = f.infinity then none
    else some ((if negative then -1 else 1) * (f.units code : ℚ) / f.unitsInOne)

/-- The number that a numeric value or a character denotes. A character counts as its code
point. -/
def Value.number? : Value → Option ℚ
  | byte n => some n.toInt
  | short n => some n.toInt
  | char a => some a.toNat
  | int n => some n.toInt
  | long n => some n.toInt
  | float x => x.value?
  | double x => x.value?
  | decimal d => some d.value
  | _ => none

/-- The number is the given integer, as conversion to an integer type sees it. -/
structure Numeric.IsInteger (n : Numeric) (i : ℤ) : Prop where
  whole_eq : n.whole = i
  wholeInt_eq : n.wholeInt = i

theorem Numeric.IsInteger.integral (i : ℤ) : (Numeric.integral i).IsInteger i := ⟨rfl, rfl⟩

theorem Numeric.IsInteger.decimal (d : Decimal) : (Numeric.decimal d).IsInteger d.truncate :=
  ⟨rfl, rfl⟩

/-! ### Acceptance by an integer parameter -/

variable {v : Value} {t param : Ty} {p : Prim} {r : Rank} {bits : Nat}

theorem fitsSigned_char (a : Char) : fitsSigned 32 a.toNat = true := by
  have hvalid := a.valid
  simp only [UInt32.isValidChar, Nat.isValidChar] at hvalid
  have hnat : a.toNat = a.val.toNat := rfl
  rw [fitsSigned_iff]
  omega

/-- A value that ranks as an integer type is an integer that the type has room for. -/
theorem Value.exists_integer_of_argumentRank? {recast : Bool} (ht : v.type? = some t)
    (hr : argumentRank? recast v t = some r) (hbits : r.bits? = some bits) :
    ∃ n i, v.numeric? = some n ∧ n.IsInteger i ∧ v.number? = some (i : ℚ) ∧
      fitsSigned bits i = true := by
  cases v with
  | null => cases ht
  | byte n | short n | int n | long n =>
    obtain rfl := Option.some.inj ht
    obtain rfl := Option.some.inj hr
    obtain rfl := Option.some.inj hbits
    exact ⟨_, _, rfl, .integral _, rfl, fitsSigned_iff.mpr ⟨n.le_toInt, n.toInt_lt⟩⟩
  | decimal d =>
    obtain rfl := Option.some.inj ht
    cases recast with
    | false => cases hr
    | true =>
      obtain ⟨s, hs, hat⟩ := d.exists_rank?
      obtain rfl : s = r := Option.some.inj (hs.symm.trans hr)
      obtain ⟨i, hi, hfits⟩ := (hat.le_iff hbits).mp (Nat.le_refl _)
      obtain ⟨-, rfl⟩ := Decimal.value_eq_intCast_iff.mp hi
      exact ⟨_, _, rfl, .decimal d, congrArg some hi, fitsSigned_iff.mpr hfits⟩
  | bool | char | float | double | string | sequence | array | type | object =>
    -- the type of the value has no rank, or none of an integer
    obtain rfl := Option.some.inj ht
    cases hr <;> cases hbits

/-- Only characters rank as characters. -/
theorem Value.eq_char_of_argumentRank? {recast : Bool} (ht : v.type? = some t)
    (hr : argumentRank? recast v t = some .char) : ∃ a, v = char a := by
  cases v with
  | char a => exact ⟨a, rfl⟩
  | null => cases ht
  | decimal d =>
    obtain rfl := Option.some.inj ht
    cases recast with
    | false => cases hr
    | true =>
      obtain ⟨s, hs, hat⟩ := d.exists_rank?
      obtain rfl : s = .char := Option.some.inj (hs.symm.trans hr)
      exact absurd hat.1 (by decide)
  | _ =>
    obtain rfl := Option.some.inj ht
    cases hr

/-- An integer parameter accepts no rank above its own. -/
theorem exists_rank_le_of_accepted {recast : Bool} (hr : param.rank? = some r)
    (hbits : r.bits? = some bits) (h : (numericScore? recast v t param).isSome = true) :
    ∃ a, argumentRank? recast v t = some a ∧ a ≤ r := by
  obtain ⟨s, hs⟩ := Option.isSome_iff_exists.mp h
  obtain ⟨q, hq, hs⟩ := Option.bind_eq_some_iff.mp hs
  obtain ⟨a, ha, hs⟩ := Option.bind_eq_some_iff.mp hs
  obtain rfl : r = q := Option.some.inj (hr.symm.trans hq)
  exact ⟨a, ha, (rankScore?_isSome_iff (Rank.ne_char_of_bits? hbits)).mp
    (Option.isSome_of_eq_some hs)⟩

/-- The ranks up to an integer rank are integer ranks and, below the wider two, that of
characters. -/
theorem Rank.bits_of_le {a : Rank} (hbits : r.bits? = some bits) (h : a ≤ r) :
    (∃ m, a.bits? = some m ∧ m ≤ bits) ∨ a = .char ∧ 32 ≤ bits := by
  revert h
  cases r <;> cases hbits <;> cases a <;> decide +revert

/-- What an integer parameter accepts as a number is an integer that it has room for. -/
theorem Value.exists_integer_of_accepted {recast : Bool} (ht : v.type? = some t)
    (hr : param.rank? = some r) (hbits : r.bits? = some bits)
    (h : (numericScore? recast v t param).isSome = true) :
    ∃ n i, v.numeric? = some n ∧ n.IsInteger i ∧ v.number? = some (i : ℚ) ∧
      fitsSigned bits i = true := by
  obtain ⟨a, ha, hle⟩ := exists_rank_le_of_accepted hr hbits h
  rcases Rank.bits_of_le hbits hle with ⟨m, hm, hmle⟩ | ⟨rfl, hwide⟩
  · obtain ⟨n, i, hn, hi, hnumber, hfits⟩ := exists_integer_of_argumentRank? ht ha hm
    exact ⟨n, i, hn, hi, hnumber, fitsSigned_mono hmle hfits⟩
  · obtain ⟨a, rfl⟩ := eq_char_of_argumentRank? ht ha
    exact ⟨_, _, rfl, .integral _, rfl, fitsSigned_mono hwide (fitsSigned_char a)⟩

/-! ### Conversion -/

/-- An integer type keeps the integers that it has room for. -/
theorem Numeric.numeric?_toValue {n : Numeric} {i : ℤ} (hbits : r.bits? = some bits)
    (hn : n.IsInteger i) (hfits : fitsSigned bits i = true) :
    (n.toValue r).numeric? = some (.integral i) := by
  obtain ⟨hwhole, hint⟩ := hn
  rw [fitsSigned_iff] at hfits
  obtain ⟨hlower, hupper⟩ := hfits
  cases r with
  | byte =>
    cases hbits
    simp only [toValue, Value.numeric?, hint, Int8.toInt_ofInt_of_le hlower hupper]
  | short =>
    cases hbits
    simp only [toValue, Value.numeric?, hint, Int16.toInt_ofInt_of_le hlower hupper]
  | int =>
    cases hbits
    simp only [toValue, Value.numeric?, hint, Int32.toInt_ofInt_of_le hlower hupper]
  | long =>
    cases hbits
    simp only [toValue, Value.numeric?, hwhole, Int64.toInt_ofInt_of_le hlower hupper]
  | char | float | double => cases hbits

/-- A value read as an integer denotes that integer. -/
theorem Value.number?_of_numeric? {i : ℤ} (h : v.numeric? = some (.integral i)) :
    v.number? = some (i : ℚ) := by
  cases v <;> cases h <;> rfl

/-- An integer that fits the parameter denotes the same number after the conversion. -/
theorem Value.number?_coerce {n : Numeric} {i : ℤ} (hn : v.numeric? = some n) (hi : n.IsInteger i)
    (hr : param.rank? = some r) (hbits : r.bits? = some bits) (hfits : fitsSigned bits i = true) :
    (v.coerce param).number? = some (i : ℚ) := by
  have hconvert : v.convert? r = some (n.toValue r) := by
    rcases convert?_cases v r with ⟨a, -, rfl, -⟩ | hconvert
    · cases hbits
    · rw [hconvert, hn, Option.map_some]
  rw [coerce_of_rank? hr, hconvert, Option.getD_some]
  exact number?_of_numeric? (Numeric.numeric?_toValue hbits hi hfits)

/-- A number accepted by an integer parameter is an integer, and its conversion is a value of the
parameter's kind that denotes the same integer. -/
theorem Value.coerce_integer_lossless (recast : Bool) (ht : v.type? = some t)
    (hp : param.prim? = some p) (hr : p.rank? = some r) (hbits : r.bits? = some bits)
    (h : (numericScore? recast v t param).isSome = true) :
    ∃ i : ℤ, v.number? = some (i : ℚ) ∧ (v.coerce param).number? = some (i : ℚ) ∧
      (v.coerce param).type? = some (.boxed p) := by
  have hrank : param.rank? = some r := by rw [Ty.rank?, hp, Option.bind_some, hr]
  obtain ⟨n, i, hn, hi, hnumber, hfits⟩ := exists_integer_of_accepted ht hrank hbits h
  exact ⟨i, hnumber, number?_coerce hn hi hrank hbits hfits,
    type?_coerce_of_accepted recast hp (.inr ⟨t, ht, h⟩)⟩

/-- A character beyond sixteen bits for an integer, and a decimal with places for a byte. -/
theorem Value.coerce_integer_lossless_hundred :
    (∃ i : ℤ, (Value.char '𝄞').number? = some (i : ℚ) ∧
      ((Value.char '𝄞').coerce (.raw .int)).number? = some (i : ℚ)) ∧
    ∃ i : ℤ, (Value.decimal Decimal.hundred).number? = some (i : ℚ) ∧
      ((Value.decimal Decimal.hundred).coerce (.boxed .byte)).number? = some (i : ℚ) := by
  have hint : (Ty.raw .int).prim? = some .int := rfl
  have hbyte : (Ty.boxed .byte).prim? = some .byte := rfl
  constructor
  · obtain ⟨i, hi, hcoerce, -⟩ := coerce_integer_lossless (v := .char '𝄞') (t := .boxed .char)
      false rfl hint rfl rfl (by decide)
    exact ⟨i, hi, hcoerce⟩
  · obtain ⟨i, hi, hcoerce, -⟩ := coerce_integer_lossless (v := .decimal .hundred) (t := .decimal)
      true rfl hbyte rfl rfl (by decide)
    exact ⟨i, hi, hcoerce⟩

/-- A raw integer parameter has no other way of accepting an argument. -/
theorem Registry.coerce_raw_integer (c : Catalog) (recast : Bool) (s : Registry)
    (hr : p.rank? = some r) (hbits : r.bits? = some bits)
    (h : (scoreArgument? c recast v (.raw p) s).1.isSome = true) :
    ∃ i : ℤ, v.number? = some (i : ℚ) ∧ (v.coerce (.raw p)).number? = some (i : ℚ) := by
  have hrank : (Ty.raw p).rank? = some r := hr
  rw [scoreArgument?_raw] at h
  obtain ⟨score, hs⟩ := Option.isSome_iff_exists.mp h
  obtain ⟨t, ht, hscore⟩ := Option.bind_eq_some_iff.mp hs
  have hbool : p ≠ .bool := by
    rintro rfl
    cases hr
  have hparam : ¬ (t = .boxed .bool ∧ (Ty.raw p) = .raw .bool) := fun hboth =>
    hbool (Ty.raw.inj hboth.2)
  rw [primitiveScore?, if_neg hparam] at hscore
  obtain ⟨n, i, hn, hi, hnumber, hfits⟩ :=
    Value.exists_integer_of_accepted ht hrank hbits (Option.isSome_of_eq_some hscore)
  exact ⟨i, hnumber, Value.number?_coerce hn hi hrank hbits hfits⟩

end Dispatch
