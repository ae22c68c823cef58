import Dispatch.Memo
import Dispatch.Proofs.Resolution.Meaning

/-!
# What resolution sees

A resolution that succeeds depends on nothing but the shape of the call. Scores of arguments are
functions of the shapes of the arguments, and arguments of the same shapes raise the same questions
while they are scored, so this is plain except where the receiver itself becomes an argument, as the
enclosing instance of a nested type: its shape is not part of the shape of the call, and two
receivers of one type name may score differently there. The difference is the same for every
constructor, though, as long as the constructors of the nested type agree on the type of the
enclosing instance (`Catalog.BindsEnclosing`), so it does not change which constructor is best.
-/

namespace Dispatch

/-! ### Shapes of arguments -/

namespace ArgumentShape

/-- The runtime type that a shape stands for. -/
def type? : ArgumentShape → Option Ty
  | null => none
  | typed t => some t
  | decimal _ => some .decimal

/-- The rank that a shape stands for. -/
def rank? : ArgumentShape → Option Rank
  | null => none
  | typed t => t.rank?
  | decimal r => r

end ArgumentShape

theorem Value.type?_shape (recast : Bool) (v : Value) : (v.shape recast).type? = v.type? := by
  cases v with
  | decimal d => cases recast <;> rfl
  | _ => rfl

/-- The rank of an argument is part of its shape. That of a decimal depends on its value, and is
there for that reason. -/
theorem argumentRank?_shape {recast : Bool} {v : Value} {t : Ty} (ht : v.type? = some t) :
    argumentRank? recast v t = (v.shape recast).rank? := by
  cases v with
  | null => cases ht
  | decimal d =>
    obtain rfl := Option.some.inj ht
    cases recast <;> rfl
  | _ =>
    obtain rfl := Option.some.inj ht
    rfl

section Congruence

variable {c : Catalog} {recast recast' : Bool}

/-- Arguments of one shape have one runtime type. -/
theorem Value.type?_congr {v w : Value} (h : v.shape recast = w.shape recast') :
    v.type? = w.type? := by
  rw [← type?_shape recast v, h, type?_shape]

theorem Value.map_type?_congr {vs ws : List Value}
    (h : vs.map (Value.shape recast) = ws.map (Value.shape recast')) :
    vs.map Value.type? = ws.map Value.type? := by
  have hshape := congrArg (List.map ArgumentShape.type?) h
  simpa [Function.comp_def, type?_shape] using hshape

/-- The score of a conversion is a function of the shape. -/
theorem primitiveScore?_congr {v w : Value} {t param : Ty} (ht : v.type? = some t)
    (h : v.shape recast = w.shape recast') :
    primitiveScore? recast v t param = primitiveScore? recast' w t param := by
  have hw : w.type? = some t := (Value.type?_congr h).symm.trans ht
  rw [primitiveScore?, primitiveScore?, numericScore?, numericScore?, argumentRank?_shape ht,
    argumentRank?_shape hw, h]

namespace Catalog

/-- The score of an argument is a function of its shape, and of nothing else in the value. -/
theorem scoreArgument?_congr {v w : Value} (h : v.shape recast = w.shape recast') (param : Ty) :
    c.scoreArgument? recast v param = c.scoreArgument? recast' w param := by
  have htype := Value.type?_congr h
  rw [scoreArgument?, scoreArgument?, ← htype]
  cases hv : v.type? with
  | none => rfl
  | some t => simp only [primitiveScore?_congr hv h]

theorem scoreArguments?_congr {vs ws : List Value}
    (h : vs.map (Value.shape recast) = ws.map (Value.shape recast')) (params : List Ty) :
    c.scoreArguments? recast params vs = c.scoreArguments? recast' params ws := by
  induction params generalizing vs ws with
  | nil => simp [scoreArguments?]
  | cons param params ih =>
    cases vs with
    | nil =>
      obtain rfl := List.map_eq_nil_iff.mp h.symm
      rfl
    | cons v vs =>
      obtain ⟨w, ws, rfl, hw, hws⟩ := List.map_eq_cons_iff.mp h.symm
      rw [scoreArguments?, scoreArguments?, scoreArgument?_congr hw.symm, ih hws.symm]

theorem score?_congr {vs ws : List Value}
    (h : vs.map (Value.shape recast) = ws.map (Value.shape recast')) (o : Overload) :
    c.score? recast vs o = c.score? recast' ws o := by
  have hlength : vs.length = ws.length := by simpa using congrArg List.length h
  rw [score?, score?, scoreArguments?_congr h, hlength]

/-- The overload selected is a function of the shapes of the arguments. -/
theorem select?_congr {vs ws : List Value}
    (h : vs.map (Value.shape recast) = ws.map (Value.shape recast')) (os : List Overload) :
    c.select? recast vs os = c.select? recast' ws os := by
  simp only [select?, score?_congr h]

/-- Selection depends on the shapes of the arguments, and so do its failures. -/
theorem select_congr {vs ws : List Value}
    (h : vs.map (Value.shape recast) = ws.map (Value.shape recast')) (t : TypeName)
    (name : String) (os : List Overload) :
    c.select recast t name vs os = c.select recast' t name ws os := by
  rw [select, select, select?_congr h, Value.map_type?_congr h]

end Catalog

/-! ### Questions and the shapes of arguments -/

namespace Registry

/-- Arguments of one shape are scored by the same questions. -/
theorem scoreArgument?_congr {v w : Value} (h : v.shape recast = w.shape recast') (param : Ty) :
    scoreArgument? c recast v param = scoreArgument? c recast' w param := by
  have htype := Value.type?_congr h
  rw [scoreArgument?, scoreArgument?, ← htype]
  cases hv : v.type? with
  | none => rfl
  | some t => simp only [primitiveScore?_congr hv h]

/-- Arguments of one shape are scored by the same questions, so the registry ends up the same. -/
theorem scoreArguments?_congr {vs ws : List Value}
    (h : vs.map (Value.shape recast) = ws.map (Value.shape recast')) (params : List Ty) :
    scoreArguments? c recast params vs = scoreArguments? c recast' params ws := by
  induction params generalizing vs ws with
  | nil => simp [scoreArguments?]
  | cons param params ih =>
    cases vs with
    | nil =>
      obtain rfl := List.map_eq_nil_iff.mp h.symm
      rfl
    | cons v vs =>
      obtain ⟨w, ws, rfl, hw, hws⟩ := List.map_eq_cons_iff.mp h.symm
      rw [scoreArguments?, scoreArguments?, scoreArgument?_congr hw.symm, ih hws.symm]

theorem score?_congr {vs ws : List Value}
    (h : vs.map (Value.shape recast) = ws.map (Value.shape recast')) (o : Overload) :
    score? c recast vs o = score? c recast' ws o := by
  have hlength : vs.length = ws.length := by simpa using congrArg List.length h
  rw [score?, score?, scoreArguments?_congr h, hlength]

theorem select?_congr {vs ws : List Value}
    (h : vs.map (Value.shape recast) = ws.map (Value.shape recast')) (os : List Overload) :
    select? c recast vs os = select? c recast' ws os := by
  simp only [select?, scores, score?_congr h]

end Registry

namespace Resolution

/-- Arguments of the same shapes have an overload selected by the same questions. -/
theorem select_congr {vs ws : List Value}
    (h : vs.map (Value.shape recast) = ws.map (Value.shape recast')) (t : TypeName)
    (name : String) (os : List Overload) :
    select c recast t name vs os = select c recast' t name ws os := by
  simp only [select, Registry.select?_congr h, Value.map_type?_congr h]

theorem selectConstructor_congr {vs ws : List Value}
    (h : vs.map (Value.shape recast) = ws.map (Value.shape recast')) (t : TypeName) :
    selectConstructor c recast t vs = selectConstructor c recast' t ws := by
  simp only [selectConstructor, select_congr h]

/-- Arguments of one shape select one method, and teach the registry the same. -/
theorem selectMethod_congr {vs ws : List Value}
    (h : vs.map (Value.shape recast) = ws.map (Value.shape recast')) (t : TypeName)
    (name : String) :
    selectMethod c recast t name vs = selectMethod c recast' t name ws := by
  simp only [selectMethod, select_congr h]

end Resolution

end Congruence

/-! ### Enclosing instances -/

/-- Raising all scores alike does not change which overload is best. -/
theorem firstBest?_map_add (s : Nat) (l : List (Overload × Option Nat)) :
    firstBest? (l.map fun p => (p.1, p.2.map (s + ·))) =
      (firstBest? l).map fun best => (best.1, s + best.2) := by
  induction l with
  | nil => rfl
  | cons p rest ih =>
    obtain ⟨o, score⟩ := p
    cases score with
    | none => exact ih
    | some n =>
      simp only [List.map_cons, Option.map_some, firstBest?, ih]
      cases firstBest? rest with
      | none => rfl
      | some best =>
        by_cases hlt : n < best.2
        · have hlt' : s + n < s + best.2 := by omega
          simp [hlt, hlt']
        · have hlt' : ¬ s + n < s + best.2 := by omega
          simp [hlt, hlt']

namespace Catalog

variable {c : Catalog} {recast recast' : Bool} {enclosing : TypeName}

theorem isSubtype_refl (t : TypeName) : c.isSubtype t t = true := by simp [isSubtype]

/-- A parameter of a named type takes the values whose type names are below it. -/
theorem scoreArgument?_named {v : Value} {t : Ty} (ht : v.type? = some t) :
    c.scoreArgument? recast v (.named enclosing) =
      if t = .named enclosing then some Score.exact
      else if c.isSubtype t.typeName enclosing then some Score.subtype else none := by
  have hprim : primitiveScore? recast v t (.named enclosing) = none := by
    simp [primitiveScore?, numericScore?, Ty.rank?, Ty.prim?]
  simp [scoreArgument?, ht, hprim, Ty.isTop, takesSubtype, Ty.isRaw, takesSequence]

/-- A value that is not null is accepted for a named type exactly as one of a subtype. -/
theorem scoreArgument?_named_isSome {v : Value} {t : Ty} (ht : v.type? = some t) :
    (c.scoreArgument? recast v (.named enclosing)).isSome = c.isSubtype t.typeName enclosing := by
  rw [scoreArgument?_named ht]
  by_cases hexact : t = .named enclosing
  · simp [hexact, isSubtype_refl]
  · cases hsub : c.isSubtype t.typeName enclosing <;> simp [hexact]

variable (c recast) in
/-- The score that the arguments after an enclosing instance contribute. -/
def scoreRest? (args : List Value) (o : Overload) : Option Nat :=
  if o.params.tail.length ≠ args.length then none else c.scoreArguments? recast o.params.tail args

/-- The score of the remaining arguments is a function of their shapes. -/
theorem scoreRest?_congr {vs ws : List Value}
    (h : vs.map (Value.shape recast) = ws.map (Value.shape recast')) (o : Overload) :
    c.scoreRest? recast vs o = c.scoreRest? recast' ws o := by
  have hlength : vs.length = ws.length := by simpa using congrArg List.length h
  rw [scoreRest?, scoreRest?, scoreArguments?_congr h, hlength]

/-- The score with an enclosing instance in front is its score added to that of the rest. -/
theorem score?_cons {outer : Value} {args : List Value} {o : Overload}
    (ho : o.params.head? = some (.named enclosing)) :
    c.score? recast (outer :: args) o =
      (c.scoreArgument? recast outer (.named enclosing)).bind fun s =>
        (c.scoreRest? recast args o).map (s + ·) := by
  obtain ⟨params, hparams⟩ := List.head?_eq_some_iff.mp ho
  rw [score?, scoreRest?, hparams]
  simp only [List.length_cons, List.tail_cons, List.isEmpty_cons, Bool.false_eq_true, if_false,
    scoreArguments?]
  by_cases hlength : params.length = args.length
  · cases c.scoreArgument? recast outer (.named enclosing) <;> simp [hlength]
  · cases c.scoreArgument? recast outer (.named enclosing) <;> simp [hlength]

/-- An enclosing instance that is accepted raises all scores alike. -/
theorem select?_cons {outer : Value} {args : List Value} {os : List Overload} {s : Nat}
    (hos : ∀ o ∈ os, o.params.head? = some (.named enclosing))
    (hs : c.scoreArgument? recast outer (.named enclosing) = some s) :
    c.select? recast (outer :: args) os =
      (firstBest? (os.map fun o => (o, c.scoreRest? recast args o))).map
        fun best => (best.1, s + best.2) := by
  rw [select?, ← firstBest?_map_add, List.map_map]
  congr 1
  refine List.map_congr_left fun o ho => ?_
  rw [score?_cons (hos o ho), hs]
  rfl

/-- An enclosing instance that is not accepted excludes every overload. -/
theorem select?_cons_eq_none {outer : Value} {args : List Value} {os : List Overload}
    (hos : ∀ o ∈ os, o.params.head? = some (.named enclosing))
    (hs : c.scoreArgument? recast outer (.named enclosing) = none) :
    c.select? recast (outer :: args) os = none := by
  rw [select?, firstBest?_eq_none_iff]
  intro p hp
  obtain ⟨o, ho, rfl⟩ := List.mem_map.mp hp
  simp [score?_cons (hos o ho), hs]

/-- Two enclosing instances whose types go by one name have the same constructor selected. -/
theorem select?_cons_congr {outer outer' : Value} {t t' : Ty} {vs ws : List Value}
    {os : List Overload} (hos : ∀ o ∈ os, o.params.head? = some (.named enclosing))
    (ht : outer.type? = some t) (ht' : outer'.type? = some t') (hname : t.typeName = t'.typeName)
    (h : vs.map (Value.shape recast) = ws.map (Value.shape recast')) :
    (c.select? recast (outer :: vs) os).map (·.1) =
      (c.select? recast' (outer' :: ws) os).map (·.1) := by
  have hsome : (c.scoreArgument? recast outer (.named enclosing)).isSome =
      (c.scoreArgument? recast' outer' (.named enclosing)).isSome := by
    rw [scoreArgument?_named_isSome ht, scoreArgument?_named_isSome ht', hname]
  -- either no constructor takes either instance, or both raise the scores of the rest
  cases hs : c.scoreArgument? recast outer (.named enclosing) with
  | none =>
    rw [hs] at hsome
    have hs' := Option.isSome_eq_false_iff.mp hsome.symm
    rw [select?_cons_eq_none hos hs, select?_cons_eq_none hos (Option.isNone_iff_eq_none.mp hs')]
  | some s =>
    rw [hs] at hsome
    obtain ⟨s', hs'⟩ := Option.isSome_iff_exists.mp hsome.symm
    rw [select?_cons hos hs, select?_cons hos hs', Option.map_map, Option.map_map]
    simp only [scoreRest?_congr h]
    rfl

end Catalog

end Dispatch
