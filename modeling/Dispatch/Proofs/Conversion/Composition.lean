import Dispatch.Proofs.Conversion.Widening
import Dispatch.Proofs.Number.Exact

/-!
# Conversion in several steps

An integer type keeps the low-order bits of a whole number, so what a narrower type makes of the
number can be told from what a wider one has made of it. Up to `int` this is so of all numbers,
because a floating-point number is brought to 32 bits first in any case. A `long` is made of the 64
bits it is brought to otherwise, and loses in the next step what an `int` would have been clamped
to; so a step through `long` is left out for floating-point numbers.

* `Value.convert?_own`: a value is left as it is at its own rank.
* `Value.convert?_in_two`: a step through an integer type.
* `Value.convert?_in_steps`: which values are converted, and in which steps.
-/

namespace Dispatch

/-! ### Low-order bits -/

/-- The number of low-order bits that an integer rank or that of characters keeps. -/
def Rank.keeps? : Rank → Option Nat
  | .char => some 16
  | r => r.bits?

/-- A rank up to an integer rank keeps no more bits than that one has. -/
theorem Rank.exists_keeps? {t r : Rank} {bits : Nat} (hbits : t.bits? = some bits) (h : r ≤ t) :
    ∃ kept, r.keeps? = some kept ∧ kept ≤ bits := by
  revert h
  cases t <;> cases hbits <;> cases r <;> simp [keeps?, bits?] <;> decide

theorem Rank.exists_prim (r : Rank) : ∃ p : Prim, p.rank? = some r := by
  cases r
  exacts [⟨.byte, rfl⟩, ⟨.short, rfl⟩, ⟨.char, rfl⟩, ⟨.int, rfl⟩, ⟨.long, rfl⟩, ⟨.float, rfl⟩,
    ⟨.double, rfl⟩]

namespace Numeric

variable {n : Numeric} {i j : ℤ} {r t : Rank} {bits kept : Nat}

/-- What is made of an integer depends on the bits that are kept of it. -/
theorem toValue_congr (hkept : r.keeps? = some kept) (h : i.bmod (2 ^ kept) = j.bmod (2 ^ kept)) :
    (integral i).toValue r = (integral j).toValue r := by
  have hshort (h : i.bmod (2 ^ 16) = j.bmod (2 ^ 16)) : Int16.ofInt i = Int16.ofInt j := by
    rwa [← Int16.toInt_inj, Int16.toInt_ofInt, Int16.toInt_ofInt]
  cases r with
  | byte =>
    cases hkept
    refine congrArg Value.byte ?_
    rwa [← Int8.toInt_inj, Int8.toInt_ofInt, Int8.toInt_ofInt]
  | short =>
    cases hkept
    exact congrArg Value.short (hshort h)
  | char =>
    cases hkept
    exact congrArg (fun unit : Int16 => Value.char (charOfUnit unit.toUInt16)) (hshort h)
  | int =>
    cases hkept
    refine congrArg Value.int ?_
    rwa [← Int32.toInt_inj, Int32.toInt_ofInt, Int32.toInt_ofInt]
  | long =>
    cases hkept
    refine congrArg Value.long ?_
    rwa [← Int64.toInt_inj, Int64.toInt_ofInt, Int64.toInt_ofInt]
  | float | double => cases hkept

/-- An integer type leaves the low-order bits of an integer. -/
theorem numeric?_toValue_integral (hbits : t.bits? = some bits) :
    ((integral i).toValue t).numeric? = some (integral (i.bmod (2 ^ bits))) := by
  cases t <;> cases hbits <;>
    simp [toValue, wholeInt, whole, Value.numeric?, Int8.toInt_ofInt, Int16.toInt_ofInt,
      Int32.toInt_ofInt, Int64.toInt_ofInt]

/-- Up to `int` every number is its whole part, clamped if need be. -/
theorem toValue_of_le_int (n : Numeric) (hr : r ≤ .int) :
    n.toValue r = (integral n.wholeInt).toValue r := by
  cases r with
  | byte | short | char | int => rfl
  | long | float | double => exact absurd hr (by decide)

/-- To the integer ranks an integer converts by its value alone, whatever it was written as. -/
theorem IsInteger.toValue_of_le_long (hn : n.IsInteger i) (hr : r ≤ .long) :
    n.toValue r = (Numeric.integral i).toValue r := by
  have hi := IsInteger.integral i
  cases r with
  | byte | short | char | int => simp only [toValue, hn.wholeInt_eq, hi.wholeInt_eq]
  | long => simp only [toValue, hn.whole_eq, hi.whole_eq]
  | float | double => exact absurd hr (by decide)

/-- An integer type and those below it take a number for the same integer, except that `long` sees
more of a floating-point number. -/
theorem exists_integral (hbits : t.bits? = some bits) (hlong : t = .long → ∀ x, n ≠ floating x) :
    ∃ i, ∀ r ≤ t, n.toValue r = (Numeric.integral i).toValue r := by
  rcases eq_or_ne t .long with rfl | hne
  · obtain ⟨i, hi⟩ : ∃ i, n.IsInteger i := by
      cases n with
      | integral i => exact ⟨i, .integral i⟩
      | decimal d => exact ⟨d.truncate, .decimal d⟩
      | floating x => exact absurd rfl (hlong rfl x)
    exact ⟨i, fun r hr => hi.toValue_of_le_long hr⟩
  · have hint : t ≤ .int := by
      revert hne
      cases t <;> cases hbits <;> decide
    exact ⟨n.wholeInt, fun r hr => n.toValue_of_le_int (Nat.le_trans hr hint)⟩

end Numeric

/-! ### Values -/

namespace Value

variable {v w : Value} {r t : Rank} {p : Prim} {bits : Nat}

/-- A value is left as it is at its own rank. -/
theorem convert?_own (hv : v.type? = some (.boxed p)) (hr : p.rank? = some r) :
    v.convert? r = some v := by
  cases v with
  | char | double =>
    cases hv
    cases hr
    rfl
  | byte n | short n | int n | long n =>
    cases hv
    cases hr
    simp [convert?, numeric?, Numeric.toValue, Numeric.wholeInt, Numeric.whole]
  | float x =>
    cases hv
    cases hr
    exact congrArg (fun y => some (float y)) x.convert_double_convert_single
  | bool =>
    cases hv
    cases hr
  | null | decimal | string | sequence | array | type | object => cases hv

/-- A second conversion to the same rank changes nothing. -/
theorem convert?_convert?_self (v : Value) (r : Rank) :
    (v.convert? r).bind (·.convert? r) = v.convert? r := by
  obtain ⟨p, hp⟩ := r.exists_prim
  cases hw : v.convert? r with
  | none => rfl
  | some w => exact convert?_own (type?_of_convert? hp hw) hp

/-- Exactly null and the values of types without a rank, decimals excepted, are not converted. -/
theorem convert?_eq_none_iff_type? :
    v.convert? r = none ↔ ∀ t, v.type? = some t → t.rank? = none ∧ t ≠ .decimal := by
  rw [convert?_eq_none_iff]
  cases v <;> simp [numeric?, type?, Ty.rank?, Ty.prim?, Prim.rank?]

/-- A step through an integer type does not matter to the integer types below it. -/
theorem convert?_in_two (hbits : t.bits? = some bits) (hr : r ≤ t)
    (hlong : t = .long → (∀ x, v ≠ float x) ∧ ∀ x, v ≠ double x)
    (hchar : r = .char → ∀ a, v ≠ char a) :
    (v.convert? t).bind (·.convert? r) = v.convert? r := by
  cases hn : v.numeric? with
  | none => rw [convert?_eq_none_iff.mpr hn, convert?_eq_none_iff.mpr hn, Option.bind_none]
  | some n =>
    have hfloating : t = .long → ∀ x, n ≠ .floating x := by
      rintro ht x rfl
      obtain ⟨hfloat, hdouble⟩ := hlong ht
      cases v with
      | float y => exact hfloat y rfl
      | double y => exact hdouble y rfl
      | _ => cases hn
    obtain ⟨i, hi⟩ := Numeric.exists_integral hbits hfloating
    obtain ⟨kept, hkept, hle⟩ := Rank.exists_keeps? hbits hr
    have hw : ((Numeric.integral i).toValue t).numeric? = some (.integral (i.bmod (2 ^ bits))) :=
      Numeric.numeric?_toValue_integral hbits
    have hwchar : ∀ a, (Numeric.integral i).toValue t ≠ char a := by
      cases t <;> cases hbits <;> nofun
    have hsame : (Numeric.integral (i.bmod (2 ^ bits))).toValue r = (Numeric.integral i).toValue r :=
      Numeric.toValue_congr hkept (Int.bmod_bmod_of_dvd (Nat.pow_dvd_pow 2 hle))
    rw [convert?_of_numeric? hn fun h => Rank.ne_char_of_bits? hbits h.2,
      convert?_of_numeric? hn fun h => h.1.elim (hchar h.2), hi t (Nat.le_refl _), hi r hr,
      Option.bind_some, convert?_of_numeric? hw fun h => h.1.elim hwchar, hsame]

/-- A value is converted exactly if its type is numeric or that of characters, and converting the
result to the same rank again does nothing. It can be taken to an integer type first and then to a
rank below: a character to all but its own, and a floating-point number if not by `long`. -/
theorem convert?_in_steps (v : Value) :
    (∀ r, v.convert? r = none ↔ ∀ t, v.type? = some t → t.rank? = none ∧ t ≠ .decimal) ∧
    (∀ r, (v.convert? r).bind (·.convert? r) = v.convert? r) ∧
    ∀ t r, t.bits?.isSome = true → r ≤ t →
      (t = .long → (∀ x, v ≠ float x) ∧ ∀ x, v ≠ double x) → (r = .char → ∀ a, v ≠ char a) →
      (v.convert? t).bind (·.convert? r) = v.convert? r := by
  refine ⟨fun r => convert?_eq_none_iff_type?, v.convert?_convert?_self, ?_⟩
  intro t r ht hr hlong hchar
  obtain ⟨bits, hbits⟩ := Option.isSome_iff_exists.mp ht
  exact convert?_in_two hbits hr hlong hchar

/-- A decimal with a fraction beyond 32 bits, and a double beyond 64. -/
theorem convert?_in_steps_large :
    let price : Value := .decimal { negative := true, coefficient := 50000000005, scale := 1 }
    let distance : Value := .double (.ofInt 1180591620717411303424)
    ((price.convert? .int).bind (·.convert? .char) = price.convert? .char ∧
      (price.convert? .long).bind (·.convert? .byte) = price.convert? .byte) ∧
      (distance.convert? .int).bind (·.convert? .short) = distance.convert? .short := by
  intro price distance
  obtain ⟨-, -, hprice⟩ := convert?_in_steps price
  obtain ⟨-, -, hdistance⟩ := convert?_in_steps distance
  exact ⟨⟨hprice .int .char rfl (by decide) nofun nofun,
    hprice .long .byte rfl (by decide) (fun _ => ⟨nofun, nofun⟩) nofun⟩,
    hdistance .int .short rfl (by decide) nofun nofun⟩

/-- A floating-point number is clamped by `int`, and not by way of `long`. -/
example :
    let distance : Value := .double (.ofInt 1099511627776)
    (distance.convert? .int).any (equal (.int 2147483647)) ∧
      ((distance.convert? .long).bind (·.convert? .int)).any (equal (.int 0)) := by decide +kernel

end Value

end Dispatch
