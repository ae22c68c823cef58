import Dispatch.Proofs.Hierarchy.Levels

/-!
# Visits

The visit of the types that a type inherits from, as it is meant to go: it climbs along the
superclasses until a type has been seen before, and then spreads from the interfaces of these, first
come first served. What is remembered on the way is the types that have been seen, and nothing
bounds their number. So that there is a visit at all says that it ends, whatever cycles the catalog
has.

* `Catalog.visits_iff`: there is exactly one visit of each type, and it is `Catalog.order`.
-/

namespace Dispatch

open Hierarchy

namespace Catalog

variable (c : Catalog)

/-! ### How a visit goes -/

/-- The climb along superclasses, from what has been seen to what has been seen then: it ends
without a superclass, at a type seen before, and at one that is not described. -/
inductive Climbs :
    List TypeName → Option TypeName → List Hierarchy.Step → List TypeName → Prop
  | top {seen} : Climbs seen none [] seen
  | back {seen t} (hseen : t ∈ seen) : Climbs seen (some t) [] seen
  | unknown {seen t} (hnew : t ∉ seen) (hinfo : c.describe t = none) :
      Climbs seen (some t) [] (t :: seen)
  | climb {seen t info chain seen'} (hnew : t ∉ seen) (hinfo : c.describe t = some info)
      (hnext : Climbs (t :: seen) info.superclass chain seen') :
      Climbs seen (some t) ((t, info) :: chain) seen'

/-- The spread over interfaces: the first in the queue is passed over if it has been seen before or
is not described, and otherwise the interfaces that it extends queue up. -/
inductive Spreads : List TypeName → List TypeName → List Hierarchy.Step → Prop
  | done {seen} : Spreads seen [] []
  | skip {seen t queue steps} (hseen : t ∈ seen) (hrest : Spreads seen queue steps) :
      Spreads seen (t :: queue) steps
  | unknown {seen t queue steps} (hnew : t ∉ seen) (hinfo : c.describe t = none)
      (hrest : Spreads (t :: seen) queue steps) : Spreads seen (t :: queue) steps
  | visit {seen t info queue steps} (hnew : t ∉ seen) (hinfo : c.describe t = some info)
      (hrest : Spreads (t :: seen) (queue ++ info.interfaces) steps) :
      Spreads seen (t :: queue) ((t, info) :: steps)

/-- The types that a visit of `t` meets, in order: the superclass chain of `t`, itself first, then
the interfaces of the chain and those that they extend. -/
def Visits (t : TypeName) (order : List TypeName) : Prop :=
  ∃ chain seen above, c.Climbs [] (some t) chain seen ∧
    c.Spreads seen (chain.flatMap (·.2.interfaces)) above ∧ order = (chain ++ above).map (·.1)

variable {c}

/-! ### There is at most one visit -/

/-- The climb is determined by where it starts and what has been seen. -/
theorem Climbs.unique {seen seen₁ seen₂ : List TypeName} {start : Option TypeName}
    {chain₁ chain₂ : List Hierarchy.Step} (h₁ : c.Climbs seen start chain₁ seen₁)
    (h₂ : c.Climbs seen start chain₂ seen₂) : chain₁ = chain₂ ∧ seen₁ = seen₂ := by
  induction h₁ generalizing chain₂ seen₂ with
  | top =>
    cases h₂
    exact ⟨rfl, rfl⟩
  | back hseen =>
    cases h₂ with
    | back => exact ⟨rfl, rfl⟩
    | unknown hnew | climb hnew => exact absurd hseen hnew
  | unknown hnew hinfo =>
    cases h₂ with
    | back hseen => exact absurd hseen hnew
    | unknown => exact ⟨rfl, rfl⟩
    | climb _ hinfo' => simp [hinfo] at hinfo'
  | climb hnew hinfo _ ih =>
    cases h₂ with
    | back hseen => exact absurd hseen hnew
    | unknown _ hinfo' => simp [hinfo] at hinfo'
    | climb _ hinfo' hnext =>
      obtain rfl := Option.some.inj (hinfo.symm.trans hinfo')
      obtain ⟨rfl, rfl⟩ := ih hnext
      exact ⟨rfl, rfl⟩

/-- The spread is determined by its queue and what has been seen. -/
theorem Spreads.unique {seen queue : List TypeName} {steps₁ steps₂ : List Hierarchy.Step}
    (h₁ : c.Spreads seen queue steps₁) (h₂ : c.Spreads seen queue steps₂) : steps₁ = steps₂ := by
  induction h₁ generalizing steps₂ with
  | done =>
    cases h₂
    rfl
  | skip hseen _ ih =>
    cases h₂ with
    | skip _ hrest => exact ih hrest
    | unknown hnew | visit hnew => exact absurd hseen hnew
  | unknown hnew hinfo _ ih =>
    cases h₂ with
    | skip hseen => exact absurd hseen hnew
    | unknown _ _ hrest => exact ih hrest
    | visit _ hinfo' => simp [hinfo] at hinfo'
  | visit hnew hinfo _ ih =>
    cases h₂ with
    | skip hseen => exact absurd hseen hnew
    | unknown _ hinfo' => simp [hinfo] at hinfo'
    | visit _ hinfo' hrest =>
      obtain rfl := Option.some.inj (hinfo.symm.trans hinfo')
      rw [ih hrest]

/-! ### The walks are visits -/

variable (c) in
/-- In a list closed under steps upwards, the unvisited types are those that have not been seen. -/
structure Splits (all unvisited seen : List TypeName) : Prop where
  closed : ∀ {t u}, t ∈ all → c.Derives t u → u ∈ all
  mem_iff : ∀ {t}, t ∈ all → (t ∈ unvisited ↔ t ∉ seen)

section Splits

variable {all unvisited seen queue : List TypeName} {start : Option TypeName}

/-- At the start nothing has been seen and all types above are unvisited. -/
theorem splits_above (t : TypeName) : c.Splits (c.above t) (c.above t) [] where
  closed hu := fun ⟨_, hinfo, hmem⟩ => c.above_closed hu hinfo hmem
  mem_iff hu := by simp [hu]

/-- A visit moves one type from the unvisited ones to those seen. -/
theorem Splits.see (h : c.Splits all unvisited seen) (t : TypeName) :
    c.Splits all (without t unvisited) (t :: seen) where
  closed := h.closed
  mem_iff hu := by
    rw [mem_without, h.mem_iff hu, List.mem_cons, not_or, and_comm]

/-- The walk that counts down the unvisited types is the climb that keeps a list of the seen ones.
-/
theorem climbs_superclasses (h : c.Splits all unvisited seen) (hstart : ∀ t ∈ start, t ∈ all) :
    ∃ seen', c.Climbs seen start (c.superclasses unvisited start).1 seen' ∧
      c.Splits all (c.superclasses unvisited start).2 seen' := by
  induction unvisited, start using chain_induction generalizing seen with
  | top =>
    rw [superclasses_none]
    exact ⟨seen, .top, h⟩
  | stop unvisited t ht =>
    have hseen : t ∈ seen := by
      by_contra hnew
      exact ht ((h.mem_iff (hstart t rfl)).mpr hnew)
    rw [superclasses_stop ht]
    exact ⟨seen, .back hseen, h⟩
  | climb unvisited t ht ih =>
    have hall := hstart t rfl
    have hnew : t ∉ seen := (h.mem_iff hall).mp ht
    cases hinfo : c.describe t with
    | none =>
      rw [superclasses_unknown ht hinfo]
      exact ⟨t :: seen, .unknown hnew hinfo, h.see t⟩
    | some info =>
      rw [superclasses_climb ht hinfo]
      have hnext : ∀ u ∈ info.superclass, u ∈ all := fun u hu =>
        h.closed hall (Extends.derives ⟨info, hinfo, hu⟩)
      obtain ⟨seen', hclimbs, hsplits⟩ := ih info.superclass (h.see t) hnext
      exact ⟨seen', .climb hnew hinfo hclimbs, hsplits⟩

/-- The same for the walk over interfaces. -/
theorem spreads_interfaces (h : c.Splits all unvisited seen) (hqueue : ∀ t ∈ queue, t ∈ all) :
    c.Spreads seen queue (c.interfaces unvisited queue) := by
  induction unvisited, queue using queue_induction generalizing seen with
  | done =>
    rw [interfaces_nil]
    exact .done
  | skip unvisited t queue ht ih =>
    have hseen : t ∈ seen := by
      by_contra hnew
      exact ht ((h.mem_iff (hqueue t List.mem_cons_self)).mpr hnew)
    rw [interfaces_skip ht]
    exact .skip hseen (ih h fun u hu => hqueue u (List.mem_cons_of_mem _ hu))
  | visit unvisited t queue ht ih =>
    have hall := hqueue t List.mem_cons_self
    have hrest : ∀ u ∈ queue, u ∈ all := fun u hu => hqueue u (List.mem_cons_of_mem _ hu)
    have hnew : t ∉ seen := (h.mem_iff hall).mp ht
    cases hinfo : c.describe t with
    | none =>
      rw [interfaces_unknown ht hinfo]
      exact .unknown hnew hinfo (ih queue (h.see t) hrest)
    | some info =>
      rw [interfaces_visit ht hinfo]
      refine .visit hnew hinfo (ih _ (h.see t) fun u hu => ?_)
      rcases List.mem_append.mp hu with hu | hu
      · exact hrest u hu
      · exact h.closed hall (Implements.derives ⟨info, hinfo, hu⟩)

end Splits

/-- Each type is visited in exactly one way. -/
theorem visits_iff {t : TypeName} {order : List TypeName} :
    c.Visits t order ↔ order = c.order t := by
  have hstart : ∀ u ∈ some t, u ∈ c.above t := by
    intro u hu
    rw [← Option.some.inj hu]
    exact c.mem_above t
  obtain ⟨seen, hclimbs, hsplits⟩ := climbs_superclasses (splits_above t) hstart
  have hspreads := spreads_interfaces hsplits fun _ hu => (frontier_chain t).queued hu
  constructor
  · rintro ⟨chain, seen', above, hclimbs', hspreads', rfl⟩
    obtain ⟨rfl, rfl⟩ := hclimbs.unique hclimbs'
    obtain rfl := hspreads.unique hspreads'
    rfl
  · rintro rfl
    exact ⟨_, seen, _, hclimbs, hspreads, rfl⟩

end Catalog

end Dispatch
