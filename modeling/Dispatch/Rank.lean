import Dispatch.Ty

/-!
# Numeric ranks

The numeric and character types form one ladder, from `byte` to `double`. An implicit conversion
climbs it; types that are not numeric have no rank.
-/

namespace Dispatch

/-- The rungs of the numeric ladder. -/
inductive Rank
  | byte | short | char | int | long | float | double
deriving DecidableEq, Inhabited

namespace Rank

/-- The ranks in ascending order. -/
def all : List Rank := [byte, short, char, int, long, float, double]

/-- The height of a rank on the ladder. -/
def height : Rank → Nat
  | byte => 0
  | short => 1
  | char => 2
  | int => 3
  | long => 4
  | float => 5
  | double => 6

theorem height_injective {r s : Rank} (h : r.height = s.height) : r = s := by
  revert h
  cases r <;> cases s <;> decide

instance : LE Rank := ⟨fun r s => r.height ≤ s.height⟩

instance : LT Rank := ⟨fun r s => r.height < s.height⟩

instance (r s : Rank) : Decidable (r ≤ s) := inferInstanceAs (Decidable (r.height ≤ s.height))

instance (r s : Rank) : Decidable (r < s) := inferInstanceAs (Decidable (r.height < s.height))

/-- The name of a rank. -/
def name : Rank → String
  | byte => "Byte"
  | short => "Short"
  | char => "Char"
  | int => "Int"
  | long => "Long"
  | float => "Float"
  | double => "Double"

end Rank

/-- The rank of a primitive. Booleans are not numeric. -/
def Prim.rank? : Prim → Option Rank
  | .bool => none
  | .byte => some .byte
  | .short => some .short
  | .char => some .char
  | .int => some .int
  | .long => some .long
  | .float => some .float
  | .double => some .double

/-- The rank of a type. The raw and boxed form of a primitive share it. -/
def Ty.rank? (t : Ty) : Option Rank := t.prim?.bind Prim.rank?

end Dispatch
