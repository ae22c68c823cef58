/-!
# Type names

A type is identified by its fully qualified name: namespace segments joined by dots, followed by
the simple names of the enclosing types and of the type itself, joined by `$`, as in
`pkg.Outer$Inner`. Nothing here says whether a type of that name exists.

The two cuts of a name are `TypeName.simple`, what follows the last separator of either kind, and
`TypeName.namespace?`, what precedes the last dot. A name written with dots throughout, such as
`pkg.Outer.Inner`, leaves open where the namespace ends; `pathReadings` lists what it may stand
for, outermost type first.
-/

namespace Dispatch

/-! ### Cutting text at a separator -/

/-- The characters after the last one that satisfies `p`, or all of them if none does. -/
def afterLast (p : Char → Bool) (cs : List Char) : List Char :=
  (cs.reverse.takeWhile fun c => !p c).reverse

/-- The characters before the last occurrence of `c`, if it occurs. -/
def beforeLast? (c : Char) (cs : List Char) : Option (List Char) :=
  match cs.reverse.dropWhile (· != c) with
  | [] => none
  | _ :: before => some before.reverse

/-! ### Names -/

/-- The fully qualified name of a type. -/
structure TypeName where
  full : String
deriving DecidableEq, Inhabited

namespace TypeName

/-- The separator between the name of an enclosing type and a simple name nested in it. -/
def nestedSeparator : Char := '$'

/-- A character that ends a namespace segment or the name of an enclosing type. -/
def isSeparator (c : Char) : Bool := c == '.' || c == nestedSeparator

/-- The part after the last namespace or nesting separator. -/
def simple (t : TypeName) : String :=
  .ofList (afterLast isSeparator t.full.toList)

/-- The part before the last dot. A nested type has the namespace of its outermost type. -/
def namespace? (t : TypeName) : Option String :=
  (beforeLast? '.' t.full.toList).map .ofList

/-- The name of the type declared as `inner` inside `t`. -/
def nested (t : TypeName) (inner : String) : TypeName :=
  ⟨t.full ++ nestedSeparator.toString ++ inner⟩

/-- Names are ordered by code points, which is also the order of their encoded bytes. -/
instance : Ord TypeName where
  compare s t := compare s.full t.full

/-- A rendering that cannot be mistaken for the text of the name. -/
def inspect (t : TypeName) : String := "TypeHandle(" ++ t.full ++ ")"

end TypeName

/-! ### Dotted paths to nested types -/

/-- The readings of a path written backwards: the path itself, then with its first dot read as a
nesting separator, then with its first two, and so on. -/
def reversedReadings : List Char → List (List Char)
  | [] => [[]]
  | c :: rest =>
    if c = '.' then
      (c :: rest) :: (reversedReadings rest).map (TypeName.nestedSeparator :: ·)
    else (reversedReadings rest).map (c :: ·)

/-- The names that a dotted path may stand for: the path as it is, then with its last dot read as
a nesting separator, then with its last two, until no dot is left. -/
def pathReadings (path : String) : List String :=
  (reversedReadings path.toList.reverse).map fun cs => .ofList cs.reverse

end Dispatch
