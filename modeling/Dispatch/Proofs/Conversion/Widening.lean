import Dispatch.Proofs.Conversion.Lossless

/-!
# Widening and back

An integer that a wider type takes comes back unchanged when it is brought to its own type again. A
character goes forward as its code point and comes back as one UTF-16 unit, so it comes back
unchanged exactly if its code point is one unit. No other character does, although the wider type
has room for its code point.

* `toNat_charOfUnit`: the code point of the character that a unit stands for.
* `Value.convert?_back`: what comes back of an integer or a character.
* `Value.convert?_back_clef`: a character that does not come back.
-/

namespace Dispatch

/-! ### Characters of one unit -/

/-- Only the low sixteen bits of a code point count, and half of a surrogate pair is replaced. -/
theorem toNat_charOfUnit (n : Nat) :
    (charOfUnit (.ofNat n)).toNat =
      if (n % 2 ^ 16).isValidChar then n % 2 ^ 16 else '\uFFFD'.toNat := by
  have hunit : (UInt16.ofNat n).toUInt32.toNat = n % 2 ^ 16 := by
    rw [UInt16.toNat_toUInt32, UInt16.toNat_ofNat']
  have hvalid : (UInt16.ofNat n).toUInt32.isValidChar ↔ (n % 2 ^ 16).isValidChar := by
    rw [UInt32.isValidChar, hunit]
  rw [charOfUnit]
  split_ifs with h hlow hlow
  · exact hunit
  · exact absurd (hvalid.mp h) hlow
  · exact absurd (hvalid.mpr hlow) h
  · rfl

theorem charOfUnit_toNat_iff {a : Char} : charOfUnit (.ofNat a.toNat) = a ↔ a.toNat < 2 ^ 16 := by
  have hcode := toNat_charOfUnit a.toNat
  constructor
  · intro h
    have hlow : a.toNat % 2 ^ 16 < 2 ^ 16 := Nat.mod_lt _ (by decide)
    rw [h] at hcode
    rw [hcode]
    split
    · exact hlow
    · decide
  · intro h
    have hvalid : a.toNat.isValidChar := a.valid
    rw [Nat.mod_eq_of_lt h, if_pos hvalid] at hcode
    exact Char.toNat_inj.mp hcode

namespace Value

variable {v w : Value} {t param : Ty} {p : Prim} {own r : Rank} {bits : Nat} {i : ℤ}

/-! ### Conversion to a wider type -/

/-- Only a character at its own rank is converted otherwise than through its number. -/
theorem convert?_of_numeric? {n : Numeric} (hn : v.numeric? = some n)
    (hchar : ¬ ((∃ a, v = char a) ∧ r = .char)) : v.convert? r = some (n.toValue r) := by
  rcases convert?_cases v r with ⟨a, ha, hr, -⟩ | hconvert
  · exact absurd ⟨⟨a, ha⟩, hr⟩ hchar
  · rw [hconvert, hn, Option.map_some]

/-- Integers and characters are integers to conversion. -/
theorem exists_numeric?_eq_integral (hv : v.type? = some (.boxed p)) (hown : p.rank? = some own)
    (hlong : own ≤ .long) : ∃ i, v.numeric? = some (.integral i) := by
  cases v with
  | byte | short | char | int | long => exact ⟨_, rfl⟩
  | float | double =>
    cases hv
    cases hown
    exact absurd hlong (by decide)
  | bool =>
    cases hv
    cases hown
  | null | decimal | string | sequence | array | type | object => cases hv

/-- What an integer type accepts of the integers and characters has the same number there. -/
theorem exists_convert? {recast : Bool} (hv : v.type? = some (.boxed p))
    (hi : v.numeric? = some (.integral i)) (hr : param.rank? = some r) (hbits : r.bits? = some bits)
    (h : (numericScore? recast v (.boxed p) param).isSome = true) :
    ∃ w, v.convert? r = some w ∧ w.numeric? = some (.integral i) ∧ ∀ a, w ≠ char a := by
  obtain ⟨n, j, hn, hj, -, hfits⟩ := exists_integer_of_accepted hv hr hbits h
  obtain rfl : Numeric.integral i = n := Option.some.inj (hi.symm.trans hn)
  obtain rfl : i = j := hj.whole_eq
  have hchar := Rank.ne_char_of_bits? hbits
  refine ⟨_, convert?_of_numeric? hn fun hboth => hchar hboth.2,
    Numeric.numeric?_toValue hbits hj hfits, fun a ha => ?_⟩
  cases r <;> first | exact hchar rfl | cases ha

/-! ### Back to the own type -/

/-- An integer is what its own type makes of its number, and a character is replaced by the one that
its low unit stands for. -/
theorem toValue_of_numeric? (hv : v.type? = some (.boxed p)) (hown : p.rank? = some own)
    (hi : v.numeric? = some (.integral i)) :
    (Numeric.integral i).toValue own = v ∧ (∀ a, v ≠ char a) ∨
      ∃ a, v = char a ∧ (Numeric.integral i).toValue own = char (charOfUnit (.ofNat a.toNat)) := by
  cases v with
  | byte n | short n | int n | long n =>
    cases hv
    cases hown
    cases hi
    left
    simp [Numeric.toValue, Numeric.wholeInt, Numeric.whole]
  | char a =>
    cases hv
    cases hown
    cases hi
    refine .inr ⟨a, rfl, ?_⟩
    simp [Numeric.toValue, Numeric.wholeInt, Numeric.whole, Int16.ofInt_eq_ofNat,
      Int16.toUInt16_ofNat']
  | bool | float | double => cases hi
  | null | decimal | string | sequence | array | type | object => cases hv

/-- A value of an integer type, or a character, that an integer type takes as its own or as a wider
one comes back when it is converted to that type and then to its own. It comes back unchanged
exactly if it is not a character beyond sixteen bits. A character comes back as the one whose code
point is the low sixteen bits of its own, and as U+FFFD if these are half of a surrogate pair. -/
theorem convert?_back (recast : Bool) (hv : v.type? = some (.boxed p)) (hown : p.rank? = some own)
    (hlong : own ≤ .long) (hr : param.rank? = some r) (hbits : r.bits? = some bits)
    (hscore : numericScore? recast v (.boxed p) param = some Score.sameRank ∨
      numericScore? recast v (.boxed p) param = some Score.widening) :
    ∃ w u, v.convert? r = some w ∧ w.convert? own = some u ∧
      (u = v ↔ ∀ a, v = char a → a.toNat < 2 ^ 16) ∧
      ∀ a, v = char a → ∃ b, u = char b ∧
        b.toNat = if (a.toNat % 2 ^ 16).isValidChar then a.toNat % 2 ^ 16 else '\uFFFD'.toNat := by
  have haccepted : (numericScore? recast v (.boxed p) param).isSome = true := by
    rcases hscore with h | h <;> rw [h] <;> rfl
  obtain ⟨i, hi⟩ := exists_numeric?_eq_integral hv hown hlong
  obtain ⟨w, hw, hwi, hwchar⟩ := exists_convert? hv hi hr hbits haccepted
  have hback : w.convert? own = some ((Numeric.integral i).toValue own) :=
    convert?_of_numeric? hwi fun hboth => hboth.1.elim hwchar
  refine ⟨w, _, hw, hback, ?_⟩
  rcases toValue_of_numeric? hv hown hi with ⟨hsame, hnot⟩ | ⟨a, rfl, hunit⟩
  · exact ⟨iff_of_true hsame fun a ha => absurd ha (hnot a), fun a ha => absurd ha (hnot a)⟩
  · rw [hunit]
    constructor
    · simp [charOfUnit_toNat_iff]
    · intro b hb
      obtain rfl := Value.char.inj hb
      exact ⟨_, rfl, toNat_charOfUnit _⟩

/-- The last character of one unit, and the least `short`, come back from a `long`. -/
theorem convert?_back_limits :
    (∃ w, (char '\uFFFF').convert? .long = some w ∧ w.convert? .char = some (char '\uFFFF')) ∧
      ∃ w, (short (-32768)).convert? .long = some w ∧ w.convert? .short = some (short (-32768)) := by
  have hraw : (Ty.raw .long).rank? = some .long := rfl
  have hboxed : (Ty.boxed .long).rank? = some .long := rfl
  constructor
  · obtain ⟨w, u, hw, hu, hback, -⟩ := convert?_back (v := char '\uFFFF') true rfl rfl (by decide)
      hraw rfl (.inr (by decide))
    refine ⟨w, hw, hu.trans (congrArg some (hback.mpr fun a ha => ?_))⟩
    obtain rfl := Value.char.inj ha
    decide
  · obtain ⟨w, u, hw, hu, hback, -⟩ := convert?_back (v := short (-32768)) true rfl rfl (by decide)
      hboxed rfl (.inr (by decide))
    exact ⟨w, hw, hu.trans (congrArg some (hback.mpr fun a ha => nomatch ha))⟩

/-- The treble clef U+1D11E is accepted by an `int` and comes back from it as the letter U+D11E. -/
theorem convert?_back_clef :
    numericScore? true (char '𝄞') (.boxed .char) (.raw .int) = some Score.widening ∧
      (char '𝄞').convert? .int = some (int 0x1D11E) ∧
      (int 0x1D11E).convert? .char = some (char '\uD11E') ∧ char '\uD11E' ≠ char '𝄞' := by
  refine ⟨by decide, rfl, rfl, ?_⟩
  intro h
  exact absurd (Value.char.inj h) (by decide)

end Value

end Dispatch
