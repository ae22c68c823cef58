import Dispatch.Number.Binary

/-!
# Decimal numbers

A decimal is a signed 96-bit coefficient divided by a power of ten of at most 28, its scale.
Trailing zeros belong to the representation and not to the number: `1.0` and `1.00` are equal.

The text form keeps the scale. `Decimal.toDouble` rounds through double-precision arithmetic on
the integral and the fractional part, which is not always the nearest double.
-/

namespace Dispatch

/-- A signed coefficient over a power of ten. -/
structure Decimal where
  negative : Bool
  coefficient : Nat
  scale : Nat
  coefficient_lt : coefficient < twoPow 96 := by decide
  scale_le : scale ≤ 28 := by decide
deriving DecidableEq

namespace Decimal

instance : Inhabited Decimal := ⟨{ negative := false, coefficient := 0, scale := 0 }⟩

/-! ### The number denoted -/

/-- The power of ten that divides the coefficient. -/
def divisor (d : Decimal) : Nat := Nat.pow 10 d.scale

/-- The coefficient with its sign. -/
def numerator (d : Decimal) : Int := if d.negative then -d.coefficient else d.coefficient

/-- Numerical equality. -/
def equal (d e : Decimal) : Bool := d.numerator * e.divisor == e.numerator * d.divisor

/-- Having no fractional part. -/
def isWhole (d : Decimal) : Bool := d.coefficient % d.divisor == 0

/-- The number without its fraction. -/
def truncate (d : Decimal) : Int :=
  let whole : Nat := d.coefficient / d.divisor
  if d.negative then -whole else whole

/-! ### Floating-point forms -/

/-- The code of the double for the magnitude. A whole number is rounded once. Otherwise the two
parts are rounded and added, and the sum is rounded to the decimal's own number of places. -/
def doubleCode (d : Decimal) : Nat :=
  let f := BinaryFormat.double
  let integral := f.nearest (d.coefficient / d.divisor) 1
  let fraction := f.div (f.nearest (d.coefficient % d.divisor) 1) (f.nearest d.divisor 1)
  if fraction = 0 then integral
  else
    let places := f.nearest d.divisor 1
    f.div (f.roundHalfUp (f.mul (f.add integral fraction) places)) places

/-- The double that stands for the decimal. -/
def toDouble (d : Decimal) : Double := .ofCode d.negative d.doubleCode

/-- The single that stands for the decimal, rounded from the double. -/
def toSingle (d : Decimal) : Single := d.toDouble.convert .single

/-! ### Text -/

/-- What has been read of an unsigned numeral. -/
structure Numeral where
  /-- The number that the digits write, the point left out. -/
  coefficient : Nat := 0
  /-- There has been a digit. -/
  hasDigit : Bool := false
  /-- The digits behind the point, once there is a point. -/
  places? : Option Nat := none

namespace Numeral

/-- The number of digits behind the point. -/
def scale (n : Numeral) : Nat := n.places?.getD 0

/-- Reads one more character. There is one point at most, an underscore needs a digit somewhere
before it, and nothing follows the last place that a decimal has room for. -/
def push? (n : Numeral) (c : Char) : Option Numeral :=
  if n.scale = 28 then none
  else if c.isDigit then
    some
      { coefficient := 10 * n.coefficient + (c.toNat - '0'.toNat)
        hasDigit := true
        places? := n.places?.map (· + 1) }
  else if c = '.' ∧ n.places? = none then some { n with places? := some 0 }
  else if c = '_' ∧ n.hasDigit then some n
  else none

/-- Reads a whole numeral, which has a digit before or behind the point. Underscores only set
digits apart. -/
def ofChars? (cs : List Char) : Option Numeral := do
  let n ← cs.foldlM push? {}
  if n.hasDigit then some n else none

end Numeral

/-- The decimal with the given sign and numeral, if it has room for the digits. Zero has no
sign. -/
def ofNumeral? (negative : Bool) (n : Numeral) : Option Decimal :=
  if h : n.coefficient < twoPow 96 ∧ n.scale ≤ 28 then
    some
      { negative := negative && n.coefficient != 0
        coefficient := n.coefficient
        scale := n.scale
        coefficient_lt := h.1
        scale_le := h.2 }
  else none

/-- Reads a numeral that may have one sign, of either kind, before it. -/
def ofText? (s : String) : Option Decimal := do
  let (negative, cs) :=
    match s.toList with
    | '-' :: rest => (true, rest)
    | '+' :: rest => (false, rest)
    | cs => (false, cs)
  ofNumeral? negative (← Numeral.ofChars? cs)

/-- Writes as many places after the point as the scale says, and at least one digit before it. -/
def text (d : Decimal) : String :=
  let digits := Nat.toDigits 10 d.coefficient
  let padded := List.replicate (d.scale + 1 - digits.length) '0' ++ digits
  let whole := padded.take (padded.length - d.scale)
  let fraction := padded.drop (padded.length - d.scale)
  let unsigned := whole ++ (if fraction.isEmpty then [] else '.' :: fraction)
  .ofList (if d.negative then '-' :: unsigned else unsigned)

end Decimal

end Dispatch
