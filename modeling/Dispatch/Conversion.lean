import Dispatch.Rank
import Dispatch.Value

/-!
# Numeric conversion

A numeric or character value is judged twice: `numericScore?` says whether it may be passed to a
parameter, by comparing ranks, and `Value.convert?` brings it to the representation of a rank.
Conversion never refuses a number: integers keep their low-order bits, floating-point numbers are
truncated toward zero and clamped, and decimals drop their fraction. A value of one UTF-16 unit
that is no character becomes U+FFFD.

`Value.coerce` is the conversion of one argument to a parameter type that has accepted it.
-/

namespace Dispatch

/-! ### Ranks of values -/

/-- Whether a whole number fits a signed integer of the given number of bits. -/
def fitsSigned (bits : Nat) (i : Int) : Bool := -twoPow (bits - 1) ≤ i && i < twoPow (bits - 1)

/-- The least rank that holds a decimal exactly: a whole number goes to the first integer rank
with room for it, and everything else to the first floating-point rank in which it is finite. -/
def Decimal.rank? (d : Decimal) : Option Rank :=
  if d.isWhole && fitsSigned 8 d.truncate then some .byte
  else if d.isWhole && fitsSigned 16 d.truncate then some .short
  else if d.isWhole && fitsSigned 32 d.truncate then some .int
  else if d.isWhole && fitsSigned 64 d.truncate then some .long
  else if d.toSingle.isFinite then some .float
  else if d.toDouble.isFinite then some .double
  else none

/-- The rank of an argument of type `t`. With `recast`, a decimal is ranked by its magnitude. -/
def argumentRank? (recast : Bool) (v : Value) (t : Ty) : Option Rank :=
  match v with
  | .decimal d => if recast then d.rank? else t.rank?
  | _ => t.rank?

/-! ### Acceptance -/

namespace Score

/-- An argument of the parameter's own rank. -/
def sameRank : Nat := 4

/-- A conversion upwards on the ladder. -/
def widening : Nat := 3

/-- A number of at most the rank `int` for a raw character. -/
def toChar : Nat := 2

end Score

/-- The score of an argument of rank `a` for a parameter of type `param` and rank `p`. Only a raw
character takes numbers of other ranks. -/
def rankScore? (a p : Rank) (param : Ty) : Option Nat :=
  if a = p then some Score.sameRank
  else if p = .char then
    if param.isRaw ∧ a ≤ .int then some Score.toChar else none
  else if a < p then some Score.widening
  else none

/-- The score of passing `v`, of type `t`, to a parameter of type `param` as a number, if that is
a legal implicit conversion. -/
def numericScore? (recast : Bool) (v : Value) (t param : Ty) : Option Nat := do
  let p ← param.rank?
  let a ← argumentRank? recast v t
  rankScore? a p param

/-! ### Conversion -/

/-- What conversion sees of a number: an integer, a double or a decimal. -/
inductive Numeric
  | integral (i : Int)
  | floating (x : Double)
  | decimal (d : Decimal)

/-- The number behind a numeric or character value. A character counts as its code point. -/
def Value.numeric? : Value → Option Numeric
  | byte n => some (.integral n.toInt)
  | short n => some (.integral n.toInt)
  | char c => some (.integral c.toNat)
  | int n => some (.integral n.toInt)
  | long n => some (.integral n.toInt)
  | float x => some (.floating (x.convert .double))
  | double x => some (.floating x)
  | decimal d => some (.decimal d)
  | _ => none

/-- The integer nearest to `i` that fits a signed integer of the given number of bits. -/
def clampSigned (bits : Nat) (i : Int) : Int :=
  max (-twoPow (bits - 1)) (min i (twoPow (bits - 1) - 1))

/-- The character with the given UTF-16 unit, or U+FFFD for half of a surrogate pair. -/
def charOfUnit (unit : UInt16) : Char :=
  if h : unit.toUInt32.isValidChar then ⟨unit.toUInt32, h⟩ else '\uFFFD'

namespace Numeric

/-- The whole part, clamped to 64 bits if it comes from a floating-point number. -/
def whole : Numeric → Int
  | integral i => i
  | floating x => clampSigned 64 x.truncate
  | decimal d => d.truncate

/-- The whole part as ranks up to `int` see it: clamped to 32 bits if it comes from a
floating-point number. -/
def wholeInt : Numeric → Int
  | floating x => clampSigned 32 x.truncate
  | n => n.whole

/-- The single-precision form, rounded once from an integer or a double. -/
def toSingle : Numeric → Single
  | integral i => .ofInt i
  | floating x => x.convert .single
  | decimal d => d.toSingle

/-- The double-precision form. -/
def toDouble : Numeric → Double
  | integral i => .ofInt i
  | floating x => x
  | decimal d => d.toDouble

/-- The value of the given rank made from a number. -/
def toValue (n : Numeric) : Rank → Value
  | .byte => .byte (.ofInt n.wholeInt)
  | .short => .short (.ofInt n.wholeInt)
  | .char => .char (charOfUnit (Int16.ofInt n.wholeInt).toUInt16)
  | .int => .int (.ofInt n.wholeInt)
  | .long => .long (.ofInt n.whole)
  | .float => .float n.toSingle
  | .double => .double n.toDouble

end Numeric

/-- The value in the representation of a rank, if it is a number or a character. A character
stays as it is at its own rank. -/
def Value.convert? (v : Value) (r : Rank) : Option Value :=
  match v, r with
  | .char _, .char => some v
  | _, _ => v.numeric?.map (·.toValue r)

/-- The representation that a parameter of type `param` expects of an argument it has accepted. A
sequence becomes an array for an array parameter, a number is converted to a numeric parameter's
rank, and anything else is left as it is. -/
def Value.coerce (v : Value) (param : Ty) : Value :=
  match v, param with
  | .sequence items, .objectArray => .array items
  | _, _ =>
    match param.rank? with
    | none => v
    | some r => (v.convert? r).getD v

end Dispatch
