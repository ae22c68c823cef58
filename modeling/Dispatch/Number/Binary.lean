/-!
# Binary floating-point numbers

A binary format has a grid of magnitudes, numbered upwards from zero without a gap; the number of
a magnitude is its *code*, and the last code is infinity. A magnitude is stored as its code, so
equality is decidable and nothing depends on the machine's arithmetic.

`BinaryFormat.units` reads a code as a multiple of the least positive magnitude, and
`BinaryFormat.nearest` is the one rounding function: the code of the magnitude nearest to a
fraction, with ties to the even code and everything beyond the last finite magnitude at infinity.
Conversions and arithmetic are exact operations followed by one `nearest`.
-/

namespace Dispatch

/-- The number of patterns of `n` bits. -/
def twoPow (n : Nat) : Nat := Nat.pow 2 n

/-! ### Formats -/

/-- A binary format: the number of significant bits, counting the leading one, and the number of
bits in the exponent field. -/
structure BinaryFormat where
  precision : Nat
  exponentBits : Nat

namespace BinaryFormat

/-- Single precision. -/
def single : BinaryFormat := ⟨24, 8⟩

/-- Double precision. -/
def double : BinaryFormat := ⟨53, 11⟩

/-- The code of infinity. -/
def infinity (f : BinaryFormat) : Nat := (twoPow f.exponentBits - 1) * twoPow (f.precision - 1)

/-- The number of least positive magnitudes that make one, a power of two. -/
def unitsInOne (f : BinaryFormat) : Nat := twoPow (twoPow (f.exponentBits - 1) + f.precision - 3)

/-- The magnitude of a code, in multiples of the least positive one. Below the first normal
binade consecutive codes differ by one unit, and the distance doubles with each binade. -/
def units (f : BinaryFormat) (code : Nat) : Nat :=
  if code < twoPow f.precision then code
  else
    (twoPow (f.precision - 1) + code % twoPow (f.precision - 1)) *
      twoPow (code / twoPow (f.precision - 1) - 1)

/-- The integer nearest to `n / d`, the even one of two that are equally near. -/
def roundDiv (n d : Nat) : Nat :=
  if 2 * (n % d) < d ∨ (2 * (n % d) = d ∧ n / d % 2 = 0) then n / d else n / d + 1

/-- The code of the magnitude nearest to `n / d`. -/
def nearest (f : BinaryFormat) (n d : Nat) : Nat :=
  let n := n * f.unitsInOne
  let dropped := (n / d).log2 + 1 - f.precision
  min f.infinity (dropped * twoPow (f.precision - 1) + roundDiv n (d * twoPow dropped))

/-! ### Arithmetic on codes of finite magnitudes -/

/-- The rounded sum. -/
def add (f : BinaryFormat) (a b : Nat) : Nat := f.nearest (f.units a + f.units b) f.unitsInOne

/-- The rounded product. -/
def mul (f : BinaryFormat) (a b : Nat) : Nat :=
  f.nearest (f.units a * f.units b) (f.unitsInOne * f.unitsInOne)

/-- The rounded quotient. -/
def div (f : BinaryFormat) (a b : Nat) : Nat := f.nearest (f.units a) (f.units b)

/-- The magnitude rounded to an integer, a half upwards. -/
def roundHalfUp (f : BinaryFormat) (a : Nat) : Nat :=
  f.nearest ((2 * f.units a + f.unitsInOne) / (2 * f.unitsInOne)) 1

end BinaryFormat

/-! ### Numbers -/

/-- A number of a binary format: a signed magnitude, which may be infinite, or no number at all.
Zero has two signs. -/
inductive Binary (f : BinaryFormat)
  | nan
  | number (negative : Bool) (code : Fin (f.infinity + 1))
deriving DecidableEq

/-- Single-precision numbers. -/
abbrev Single := Binary .single

/-- Double-precision numbers. -/
abbrev Double := Binary .double

namespace Binary

variable {f : BinaryFormat}

instance : Inhabited (Binary f) := ⟨nan⟩

/-- The number of the given sign whose magnitude has the given code; a code beyond infinity
stands for infinity. -/
def ofCode (negative : Bool) (code : Nat) : Binary f :=
  number negative ⟨min code f.infinity, by omega⟩

/-- The number nearest to `n / d` with the given sign. -/
def ofFraction (negative : Bool) (n d : Nat) : Binary f := ofCode negative (f.nearest n d)

/-- The number nearest to an integer. -/
def ofInt (i : Int) : Binary f := ofFraction (i < 0) i.natAbs 1

/-- The same number in another format, rounded once. -/
def convert (g : BinaryFormat) : Binary f → Binary g
  | nan => nan
  | number negative code =>
    if code.val = f.infinity then ofCode negative g.infinity
    else ofFraction negative (f.units code) f.unitsInOne

/-- Neither infinite nor `nan`. -/
def isFinite : Binary f → Bool
  | nan => false
  | number _ code => code.val < f.infinity

/-- The number without its fraction. Infinity counts as the power of two after the largest
number, and `nan` as zero. -/
def truncate : Binary f → Int
  | nan => 0
  | number negative code =>
    let whole : Nat := f.units code / f.unitsInOne
    if negative then -whole else whole

/-- Numerical equality: the zeros are equal and `nan` equals nothing. -/
def equal : Binary f → Binary f → Bool
  | number s a, number t b => a == b && (s == t || a.val == 0)
  | _, _ => false

/-! ### Interchange encoding -/

/-- The place value of the sign bit. -/
def signPlace (f : BinaryFormat) : Nat := twoPow (f.exponentBits + f.precision - 1)

/-- The number with the given bits. Every pattern above infinity is `nan`. -/
def ofBits (bits : Nat) : Binary f :=
  let code := bits % signPlace f
  if code ≤ f.infinity then ofCode (signPlace f ≤ bits) code else nan

/-- The bits of a number; `nan` has many patterns and so none here. -/
def toBits? : Binary f → Option Nat
  | nan => none
  | number negative code => some (if negative then signPlace f + code else code)

end Binary

end Dispatch
