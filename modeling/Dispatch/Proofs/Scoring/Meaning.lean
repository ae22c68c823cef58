import Dispatch.Proofs.Registry.Agreement
import Dispatch.Scoring

/-!
# Scores as functions of the catalog

The scores of arguments and overloads are given by the catalog alone. The functions here say what
they are, and the lemmas named `asks_…` and `yields_…` that the registry computes them, whatever it
knows.
-/

namespace Dispatch

namespace Catalog

variable (c : Catalog)

/-- Whether values of a type count as sequences. -/
def isSequence (t : Ty) : Bool :=
  decide (t = .sequence) || c.isSubtype t.typeName Ty.sequence.typeName

/-- Whether a parameter that is not raw takes a type as a subtype of its own. -/
def takesSubtype (t param : Ty) : Bool := !param.isRaw && c.isSubtype t.typeName param.typeName

/-- Whether a parameter takes a type as a sequence to be copied into an array. -/
def takesSequence (t param : Ty) : Bool := decide (param = .objectArray) && c.isSequence t

/-- The score of one argument for one parameter. -/
def scoreArgument? (recast : Bool) (v : Value) (param : Ty) : Option Nat :=
  match v.type? with
  | none => nullScore? param
  | some t =>
    if param.isTop then some Score.valueToTop
    else if t = param then some Score.exact
    else if c.takesSubtype t param then some Score.subtype
    else if c.takesSequence t param then some Score.sequenceToArray
    else primitiveScore? recast v t param

/-- The sum of the scores position by position. -/
def scoreArguments? (recast : Bool) : List Ty → List Value → Option Nat
  | param :: params, v :: vs =>
    match c.scoreArgument? recast v param with
    | none => none
    | some s => (scoreArguments? recast params vs).map (s + ·)
  | _, _ => some 0

/-- The score of an overload. -/
def score? (recast : Bool) (args : List Value) (o : Overload) : Option Nat :=
  if o.params.length ≠ args.length then none
  else if o.params.isEmpty then some Score.noArguments
  else c.scoreArguments? recast o.params args

/-- The overload with the highest score, with that score. -/
def select? (recast : Bool) (args : List Value) (os : List Overload) : Option (Overload × Nat) :=
  firstBest? (os.map fun o => (o, c.score? recast args o))

end Catalog

namespace Registry

open RegistryM

variable {c : Catalog} {recast : Bool}

theorem asks_isSequence (t : Ty) : Asks c (isSequence c t) (c.isSequence t) := by
  unfold isSequence Catalog.isSequence
  by_cases h : t = .sequence
  · simp only [h, if_true, decide_true, Bool.true_or]
    exact .pure true
  · simp only [h, if_false, decide_false, Bool.false_or]
    exact asks_isSubtype _ _

theorem asks_takesSubtype (t param : Ty) :
    Asks c (takesSubtype c t param) (c.takesSubtype t param) := by
  unfold takesSubtype Catalog.takesSubtype
  cases param.isRaw with
  | true => exact .pure false
  | false => exact asks_isSubtype _ _

theorem asks_takesSequence (t param : Ty) :
    Asks c (takesSequence c t param) (c.takesSequence t param) := by
  unfold takesSequence Catalog.takesSequence
  by_cases h : param = .objectArray
  · simp only [h, if_true, decide_true, Bool.true_and]
    exact asks_isSequence t
  · simp only [h, if_false, decide_false, Bool.false_and]
    exact .pure false

/-- The score of an argument on a registry. The cases are tried in the same order as on the catalog,
so the registry is asked about subtypes only where the types differ. -/
theorem asks_scoreArgument? (v : Value) (param : Ty) :
    Asks c (scoreArgument? c recast v param) (c.scoreArgument? recast v param) := by
  unfold scoreArgument? Catalog.scoreArgument?
  cases v.type? with
  | none => exact .pure _
  | some t =>
    cases param.isTop with
    | true => exact .pure _
    | false =>
      by_cases hexact : t = param
      · simp only [hexact, if_true, Bool.false_eq_true, if_false]
        exact .pure _
      · simp only [hexact, if_false, Bool.false_eq_true]
        refine (asks_takesSubtype t param).bind ?_
        cases c.takesSubtype t param with
        | true => exact .pure _
        | false =>
          refine (asks_takesSequence t param).bind ?_
          cases c.takesSequence t param with
          | true => exact .pure _
          | false => exact .pure _

theorem asks_scoreArguments? (params : List Ty) (vs : List Value) :
    Asks c (scoreArguments? c recast params vs) (c.scoreArguments? recast params vs) := by
  induction params generalizing vs with
  | nil => exact .pure _
  | cons param params ih =>
    cases vs with
    | nil => exact .pure _
    | cons v vs =>
      unfold scoreArguments? Catalog.scoreArguments?
      refine (asks_scoreArgument? v param).bind ?_
      cases c.scoreArgument? recast v param with
      | none => exact .pure none
      | some s => exact (ih vs).bind (.pure _)

/-- The score of an overload on a registry is the one that the catalog gives. -/
theorem asks_score? (args : List Value) (o : Overload) :
    Asks c (score? c recast args o) (c.score? recast args o) := by
  unfold score? Catalog.score?
  split
  · exact .pure none
  · split
    · exact .pure _
    · exact asks_scoreArguments? _ _

theorem asks_scores (args : List Value) (os : List Overload) :
    Asks c (scores c recast args os) (os.map fun o => (o, c.score? recast args o)) := by
  have hscore : ∀ o, Asks c (do return (o, ← score? c recast args o))
      (o, c.score? recast args o) := fun o => (asks_score? args o).bind (.pure _)
  exact .mapM hscore os

/-- The selection on a registry is the one that the catalog gives, and asks about types only. -/
theorem asks_select? (args : List Value) (os : List Overload) :
    Asks c (select? c recast args os) (c.select? recast args os) :=
  (asks_scores args os).bind (.pure _)

theorem yields_isSequence (t : Ty) : Yields c (isSequence c t) (c.isSequence t) :=
  (asks_isSequence t).yields

theorem yields_scoreArgument? (v : Value) (param : Ty) :
    Yields c (scoreArgument? c recast v param) (c.scoreArgument? recast v param) :=
  (asks_scoreArgument? v param).yields

theorem yields_score? (args : List Value) (o : Overload) :
    Yields c (score? c recast args o) (c.score? recast args o) := (asks_score? args o).yields

theorem yields_scores (args : List Value) (os : List Overload) :
    Yields c (scores c recast args os) (os.map fun o => (o, c.score? recast args o)) :=
  (asks_scores args os).yields

theorem yields_select? (args : List Value) (os : List Overload) :
    Yields c (select? c recast args os) (c.select? recast args os) := (asks_select? args os).yields

end Registry

end Dispatch
