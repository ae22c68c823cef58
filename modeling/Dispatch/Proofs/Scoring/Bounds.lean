import Dispatch.Proofs.Scoring.Meaning
import Mathlib.Tactic.SplitIfs

/-!
# How high a score can be

One argument scores at most six, and less unless its type is the parameter's own. Since a list of
arguments scores the sum, six times their number is reached by one list of parameters alone; and
since each argument scores at least one, so does every call that is accepted.

* `Catalog.score?_bounds`: the range of the scores of an overload.
* `Catalog.score?_exact`, `Catalog.score?_lt_of_ne`: the parameters that reach the upper end, and
  all others.
-/

namespace Dispatch

/-- No value has the type `object` for its own. That type occurs in parameters only. -/
theorem Value.type?_ne_object (v : Value) : v.type? ≠ some .object := by
  cases v <;> simp [type?]

/-! ### Numbers and null -/

section Primitive

variable {recast : Bool} {v : Value} {t param : Ty} {n : Nat}

theorem nullScore?_bounds (h : nullScore? param = some n) : 1 ≤ n ∧ n ≤ 2 := by
  cases param <;> simp [nullScore?, Score.nullToTop, Score.nullToReference] at h <;> omega

theorem rankScore?_bounds {a p : Rank} (h : rankScore? a p param = some n) : 2 ≤ n ∧ n ≤ 4 := by
  unfold rankScore? at h
  split_ifs at h <;> simp [Score.sameRank, Score.toChar, Score.widening] at h <;> omega

/-- A conversion between primitive types scores below an exact match. -/
theorem primitiveScore?_bounds (h : primitiveScore? recast v t param = some n) :
    2 ≤ n ∧ n ≤ 4 := by
  unfold primitiveScore? at h
  split at h
  · obtain rfl := Option.some.inj h
    decide
  · obtain ⟨p, -, h⟩ := Option.bind_eq_some_iff.mp h
    obtain ⟨a, -, h⟩ := Option.bind_eq_some_iff.mp h
    exact rankScore?_bounds h

end Primitive

namespace Catalog

variable {c : Catalog} {recast : Bool} {v : Value} {param : Ty} {params : List Ty}
  {vs args : List Value} {o : Overload} {n : Nat}

/-! ### One argument -/

/-- An argument of the very type of its parameter has the highest score. -/
theorem scoreArgument?_exact (h : v.type? = some param) :
    c.scoreArgument? recast v param = some 6 := by
  have htop : param.isTop = false := by
    cases param with
    | object => exact absurd h v.type?_ne_object
    | _ => rfl
  simp [scoreArgument?, h, htop, Score.exact]

/-- An argument that is not of the parameter's type scores less than six. -/
theorem scoreArgument?_bounds_of_ne (hne : v.type? ≠ some param)
    (h : c.scoreArgument? recast v param = some n) : 1 ≤ n ∧ n ≤ 5 := by
  unfold scoreArgument? at h
  cases ht : v.type? with
  | none =>
    rw [ht] at h
    have hnull := nullScore?_bounds h
    omega
  | some t =>
    have hparam : t ≠ param := fun heq => hne (ht.trans (congrArg some heq))
    simp only [ht, if_neg hparam] at h
    split_ifs at h
    · obtain rfl := Option.some.inj h
      decide
    · obtain rfl := Option.some.inj h
      decide
    · obtain rfl := Option.some.inj h
      decide
    · have hprimitive := primitiveScore?_bounds h
      omega

/-- One argument scores at least 1, and at most as much as an exact match. -/
theorem scoreArgument?_bounds (h : c.scoreArgument? recast v param = some n) :
    1 ≤ n ∧ n ≤ 6 := by
  by_cases hexact : v.type? = some param
  · obtain rfl := Option.some.inj ((scoreArgument?_exact hexact).symm.trans h)
    decide
  · have hbounds := scoreArgument?_bounds_of_ne hexact h
    omega

/-! ### Lists of arguments -/

theorem scoreArguments?_cons_eq_some_iff :
    c.scoreArguments? recast (param :: params) (v :: vs) = some n ↔
      ∃ s m, c.scoreArgument? recast v param = some s ∧
        c.scoreArguments? recast params vs = some m ∧ s + m = n := by
  rw [scoreArguments?]
  cases c.scoreArgument? recast v param <;> simp

/-- A sum over `n` arguments lies between `n` and `6 * n`. -/
theorem scoreArguments?_bounds (hlength : params.length = vs.length)
    (h : c.scoreArguments? recast params vs = some n) : vs.length ≤ n ∧ n ≤ 6 * vs.length := by
  induction params generalizing vs n with
  | nil =>
    obtain rfl := List.length_eq_zero_iff.mp hlength.symm
    obtain rfl := Option.some.inj h
    simp
  | cons param params ih =>
    obtain ⟨v, vs, rfl⟩ := List.exists_cons_of_length_eq_add_one hlength.symm
    obtain ⟨s, m, hs, hm, rfl⟩ := scoreArguments?_cons_eq_some_iff.mp h
    have hhead := scoreArgument?_bounds hs
    have htail := ih (Nat.succ.inj hlength) hm
    rw [List.length_cons]
    omega

/-- The upper bound is reached by arguments that are exact at every position. -/
theorem scoreArguments?_exact (h : vs.map Value.type? = params.map some) :
    c.scoreArguments? recast params vs = some (6 * vs.length) := by
  induction params generalizing vs with
  | nil =>
    obtain rfl := List.map_eq_nil_iff.mp h
    rfl
  | cons param params ih =>
    obtain ⟨v, vs, rfl, hv, hvs⟩ := List.map_eq_cons_iff.mp h
    refine scoreArguments?_cons_eq_some_iff.mpr ⟨_, _, scoreArgument?_exact hv, ih hvs, ?_⟩
    rw [List.length_cons]
    omega

/-- One argument that is not of the parameter's type is enough to miss the highest score. -/
theorem scoreArguments?_lt_of_ne (hlength : params.length = vs.length)
    (hne : vs.map Value.type? ≠ params.map some)
    (h : c.scoreArguments? recast params vs = some n) : n < 6 * vs.length := by
  induction params generalizing vs n with
  | nil =>
    obtain rfl := List.length_eq_zero_iff.mp hlength.symm
    exact absurd rfl hne
  | cons param params ih =>
    obtain ⟨v, vs, rfl⟩ := List.exists_cons_of_length_eq_add_one hlength.symm
    obtain ⟨s, m, hs, hm, rfl⟩ := scoreArguments?_cons_eq_some_iff.mp h
    have hrest : params.length = vs.length := Nat.succ.inj hlength
    rw [List.length_cons]
    by_cases hv : v.type? = some param
    · -- the mismatch is further on
      have hhead := scoreArgument?_bounds hs
      have htail := ih hrest (fun hvs => hne (by rw [List.map_cons, List.map_cons, hv, hvs])) hm
      omega
    · have hhead := scoreArgument?_bounds_of_ne hv hs
      have htail := scoreArguments?_bounds hrest hm
      omega

/-! ### Overloads -/

/-- An overload has a score if it takes as many arguments as there are and accepts each of them.
Without arguments that score is 1. -/
theorem score?_eq_some_iff :
    c.score? recast args o = some n ↔
      o.params.length = args.length ∧
        (args = [] ∧ n = 1 ∨ args ≠ [] ∧ c.scoreArguments? recast o.params args = some n) := by
  unfold score?
  by_cases hlength : o.params.length = args.length
  · cases args with
    | nil =>
      have hparams : o.params = [] := List.length_eq_zero_iff.mp hlength
      simp [hparams, Score.noArguments, eq_comm]
    | cons v vs =>
      have hparams : o.params ≠ [] := List.ne_nil_of_length_eq_add_one hlength
      simp [hlength, hparams]
  · simp [hlength]

/-- A score lies between the number of arguments and six times as much, where no argument counts as
one. In particular it is positive, and fits 32 bits as long as its bound does. -/
theorem score?_bounds (h : c.score? recast args o = some n) :
    max 1 args.length ≤ n ∧ n ≤ 6 * max 1 args.length := by
  obtain ⟨hlength, ⟨rfl, rfl⟩ | ⟨hargs, h⟩⟩ := score?_eq_some_iff.mp h
  · simp
  · have hpos : 1 ≤ args.length := List.length_pos_iff.mpr hargs
    rw [Nat.max_eq_right hpos]
    exact scoreArguments?_bounds hlength h

theorem score?_exact (h : args.map Value.type? = o.params.map some) :
    c.score? recast args o = some (if args = [] then 1 else 6 * args.length) := by
  have hlength : o.params.length = args.length := by simpa using (congrArg List.length h).symm
  refine score?_eq_some_iff.mpr ⟨hlength, ?_⟩
  by_cases hargs : args = []
  · exact .inl ⟨hargs, by rw [if_pos hargs]⟩
  · rw [if_neg hargs]
    exact .inr ⟨hargs, scoreArguments?_exact h⟩

/-- Other parameters than the types of the arguments are rejected or miss the highest score. -/
theorem score?_lt_of_ne (hne : args.map Value.type? ≠ o.params.map some)
    (h : c.score? recast args o = some n) : args ≠ [] ∧ n < 6 * args.length := by
  obtain ⟨hlength, ⟨rfl, -⟩ | ⟨hargs, h⟩⟩ := score?_eq_some_iff.mp h
  · rw [List.length_eq_zero_iff.mp hlength] at hne
    exact absurd rfl hne
  · exact ⟨hargs, scoreArguments?_lt_of_ne hlength hne h⟩

end Catalog

end Dispatch
