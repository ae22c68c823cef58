import Dispatch.Hierarchy
import Mathlib.Logic.Relation
import Mathlib.Tactic.ByContra

/-!
# Paths up the type hierarchy

What the two walks of `Dispatch.Hierarchy` visit, said by paths. A step goes from a described type
to a direct supertype; `Catalog.Below` holds along any steps, `Catalog.Inherits` only along steps
to superclasses followed by steps to interfaces.

* `Catalog.isSubtype_iff`: the search for a supertype succeeds exactly on `Below`.
* `Catalog.mem_levels_iff`: the types whose members are inherited are exactly those on `Inherits`
  that the catalog describes, so a superclass of an interface is not among them unless another
  path leads to it.
-/

namespace Dispatch

open Relation

namespace Hierarchy

/-! ### Induction along a walk -/

/-- Induction along a walk with a queue: a visit takes its type out of the unvisited ones and may
put anything into the queue. -/
@[elab_as_elim]
theorem queue_induction {motive : List TypeName → List TypeName → Prop}
    (done : ∀ unvisited, motive unvisited [])
    (skip : ∀ unvisited t queue, t ∉ unvisited → motive unvisited queue →
      motive unvisited (t :: queue))
    (visit : ∀ unvisited t queue, t ∈ unvisited →
      (∀ queue', motive (without t unvisited) queue') → motive unvisited (t :: queue))
    (unvisited queue : List TypeName) : motive unvisited queue := by
  induction hn : unvisited.length using Nat.strongRecOn generalizing unvisited queue with
  | ind n ih =>
    subst hn
    induction queue with
    | nil => exact done unvisited
    | cons t queue ihq =>
      by_cases h : t ∈ unvisited
      · exact visit unvisited t queue h fun queue' => ih _ (length_without_lt h) _ queue' rfl
      · exact skip unvisited t queue h ihq

/-- Induction along the superclass chain. -/
@[elab_as_elim]
theorem chain_induction {motive : List TypeName → Option TypeName → Prop}
    (top : ∀ unvisited, motive unvisited none)
    (stop : ∀ unvisited t, t ∉ unvisited → motive unvisited (some t))
    (climb : ∀ unvisited t, t ∈ unvisited → (∀ next, motive (without t unvisited) next) →
      motive unvisited (some t))
    (unvisited : List TypeName) (start : Option TypeName) : motive unvisited start := by
  induction hn : unvisited.length using Nat.strongRecOn generalizing unvisited start with
  | ind n ih =>
    subst hn
    cases start with
    | none => exact top unvisited
    | some t =>
      by_cases h : t ∈ unvisited
      · exact climb unvisited t h fun next => ih _ (length_without_lt h) _ next rfl
      · exact stop unvisited t h

end Hierarchy

open Hierarchy

namespace Catalog

variable (c : Catalog)

/-! ### Steps and paths -/

/-- `u` is the superclass of `t`. -/
def Extends (t u : TypeName) : Prop := ∃ info, c.describe t = some info ∧ info.superclass = some u

/-- `u` is among the interfaces of `t`. -/
def Implements (t u : TypeName) : Prop := ∃ info, c.describe t = some info ∧ u ∈ info.interfaces

/-- `u` is a direct supertype of `t`. -/
def Derives (t u : TypeName) : Prop := ∃ info, c.describe t = some info ∧ u ∈ info.supertypes

/-- `u` is `t` or above it. -/
def Below (t u : TypeName) : Prop := ReflTransGen c.Derives t u

/-- No type is above itself. -/
def Acyclic : Prop := ∀ t, ¬ TransGen c.Derives t t

/-- `n` steps to interfaces lead from `t` to `u`. -/
def InterfacePath : Nat → TypeName → TypeName → Prop
  | 0, t, u => t = u
  | n + 1, t, u => ∃ s, c.Implements t s ∧ InterfacePath n s u

/-- Steps to superclasses and then `n` steps to interfaces lead from `t` to `u`. -/
def InheritsIn (n : Nat) (t u : TypeName) : Prop :=
  ∃ s, ReflTransGen c.Extends t s ∧ c.InterfacePath n s u

/-- Steps to superclasses and then steps to interfaces lead from `t` to `u`. -/
def Inherits (t u : TypeName) : Prop := ∃ n, c.InheritsIn n t u

variable {c}

/-- A step upwards is one to the superclass or one to an interface. -/
theorem derives_iff {t u : TypeName} : c.Derives t u ↔ c.Extends t u ∨ c.Implements t u := by
  simp only [Derives, Extends, Implements, TypeInfo.supertypes, List.mem_append,
    Option.mem_toList, and_or_left, exists_or]

theorem Extends.derives {t u : TypeName} (h : c.Extends t u) : c.Derives t u :=
  derives_iff.mpr (.inl h)

theorem Implements.derives {t u : TypeName} (h : c.Implements t u) : c.Derives t u :=
  derives_iff.mpr (.inr h)

theorem InterfacePath.below {n : Nat} {t u : TypeName} (h : c.InterfacePath n t u) :
    c.Below t u := by
  induction n generalizing t with
  | zero => exact h ▸ .refl
  | succ n ih =>
    obtain ⟨s, hts, hsu⟩ := h
    exact (ih hsu).head hts.derives

theorem below_of_extends {t u : TypeName} (h : ReflTransGen c.Extends t u) : c.Below t u := by
  have hmono : c.Extends ≤ c.Derives := fun _ _ hstep => hstep.derives
  exact ReflTransGen.mono hmono _ _ h

/-- The types on the levels of `t` are above `t`. The converse fails, since no superclass of an
interface is visited. -/
theorem Inherits.below {t u : TypeName} (h : c.Inherits t u) : c.Below t u := by
  obtain ⟨n, s, hts, hsu⟩ := h
  exact (below_of_extends hts).trans hsu.below

/-- A catalog has no cycles if every step upwards decreases some number. -/
theorem acyclic_of_rank (rank : TypeName → Nat)
    (h : ∀ t u, c.Derives t u → rank u < rank t) : c.Acyclic := by
  have hpath : ∀ {t u}, TransGen c.Derives t u → rank u < rank t := by
    intro t u htu
    induction htu with
    | single hstep => exact h _ _ hstep
    | tail _ hstep ih => exact Nat.lt_trans (h _ _ hstep) ih
  exact fun t ht => Nat.lt_irrefl _ (hpath ht)

/-- A finite catalog without cycles can be told by ranking its types. -/
theorem acyclic_ofTable {table : Table TypeName Entry} (rank : TypeName → Nat)
    (h : ∀ entry ∈ table.entries, ∀ u ∈ entry.2.info.supertypes, rank u < rank entry.1) :
    (ofTable table).Acyclic := by
  refine acyclic_of_rank rank fun t u htu => ?_
  obtain ⟨info, hinfo, hu⟩ := htu
  obtain ⟨entry, hentry, rfl⟩ := Option.map_eq_some_iff.mp hinfo
  exact h (t, entry) (Table.mem_entries_of_find? hentry) u hu

/-- Everything above a type lies in its finite list. -/
theorem mem_above_of_below {t u : TypeName} (h : c.Below t u) : u ∈ c.above t := by
  induction h with
  | refl => exact c.mem_above t
  | tail _ hstep ih =>
    obtain ⟨info, hinfo, hmem⟩ := hstep
    exact c.above_closed ih hinfo hmem

/-! ### The walks at a catalog -/

section Walks

variable (c) in
/-- The catalog as a look-up. -/
def look : Lookup Id := fun t => c.describe t

variable (c) in
/-- The search for a supertype, at the catalog. -/
def search (target : TypeName) (unvisited queue : List TypeName) : Bool :=
  (Hierarchy.search c.look target unvisited queue).run

variable (c) in
/-- The superclass chain and what it leaves unvisited, at the catalog. -/
def superclasses (unvisited : List TypeName) (start : Option TypeName) :
    List Step × List TypeName :=
  (Hierarchy.superclasses c.look unvisited start).run

variable (c) in
/-- The interfaces of a queue and those that they extend, at the catalog. -/
def interfaces (unvisited queue : List TypeName) : List Step :=
  (Hierarchy.interfaces c.look unvisited queue).run

variable {t target : TypeName} {unvisited : List TypeName} {info : TypeInfo}

@[simp]
theorem search_nil : c.search target unvisited [] = false := by
  rw [search, Hierarchy.search_nil]
  rfl

theorem search_skip (h : t ∉ unvisited) (queue : List TypeName) :
    c.search target unvisited (t :: queue) = c.search target unvisited queue := by
  rw [search, Hierarchy.search_skip h, search]

theorem search_unknown (h : t ∈ unvisited) (ht : c.describe t = none) (queue : List TypeName) :
    c.search target unvisited (t :: queue) = c.search target (without t unvisited) queue := by
  rw [search, Hierarchy.search_visit h]
  simp only [look, ht]
  rfl

/-- A described type ends the search if the target is one of its supertypes, and these queue up
otherwise. -/
theorem search_visit (h : t ∈ unvisited) (ht : c.describe t = some info)
    (queue : List TypeName) :
    c.search target unvisited (t :: queue) =
      (decide (target ∈ info.supertypes) ||
        c.search target (without t unvisited) (queue ++ info.supertypes)) := by
  rw [search, Hierarchy.search_visit h]
  simp only [look, ht]
  by_cases htarget : target ∈ info.supertypes
  · simp only [htarget, decide_true, Bool.true_or]
    exact congrArg Id.run (if_pos htarget)
  · simp only [htarget, decide_false, Bool.false_or]
    exact congrArg Id.run (if_neg htarget)

@[simp]
theorem superclasses_none : c.superclasses unvisited none = ([], unvisited) := by
  rw [superclasses, Hierarchy.superclasses]
  rfl

/-- The climb ends at a type that has been visited, so that a cycle of superclasses is left. -/
theorem superclasses_stop (h : t ∉ unvisited) :
    c.superclasses unvisited (some t) = ([], unvisited) := by
  rw [superclasses, Hierarchy.superclasses, dif_neg h]
  rfl

theorem superclasses_unknown (h : t ∈ unvisited) (ht : c.describe t = none) :
    c.superclasses unvisited (some t) = ([], without t unvisited) := by
  rw [superclasses, Hierarchy.superclasses, dif_pos h]
  simp only [look, ht]
  rfl

theorem superclasses_climb (h : t ∈ unvisited) (ht : c.describe t = some info) :
    c.superclasses unvisited (some t) =
      ((t, info) :: (c.superclasses (without t unvisited) info.superclass).1,
        (c.superclasses (without t unvisited) info.superclass).2) := by
  rw [superclasses, Hierarchy.superclasses, dif_pos h]
  simp only [look, ht]
  rfl

@[simp]
theorem interfaces_nil : c.interfaces unvisited [] = [] := by
  rw [interfaces, Hierarchy.interfaces_nil]
  rfl

theorem interfaces_skip (h : t ∉ unvisited) (queue : List TypeName) :
    c.interfaces unvisited (t :: queue) = c.interfaces unvisited queue := by
  rw [interfaces, Hierarchy.interfaces_skip h, interfaces]

/-- A type that is not described is skipped, and not tried again. -/
theorem interfaces_unknown (h : t ∈ unvisited) (ht : c.describe t = none)
    (queue : List TypeName) :
    c.interfaces unvisited (t :: queue) = c.interfaces (without t unvisited) queue := by
  rw [interfaces, Hierarchy.interfaces_visit h]
  simp only [look, ht]
  rfl

/-- The interfaces of a visited type queue up behind what waits already, which makes the visit
breadth-first. -/
theorem interfaces_visit (h : t ∈ unvisited) (ht : c.describe t = some info)
    (queue : List TypeName) :
    c.interfaces unvisited (t :: queue) =
      (t, info) :: c.interfaces (without t unvisited) (queue ++ info.interfaces) := by
  rw [interfaces, Hierarchy.interfaces_visit h]
  simp only [look, ht]
  rfl

end Walks

/-! ### Subtyping -/

variable (c) in
/-- Whether `super` is `sub` or above it. -/
def isSubtype (sub super : TypeName) : Bool :=
  decide (sub = super) || c.search super (c.above sub) [sub]

/-- What the search finds is above some type of the queue. -/
private theorem exists_transGen_of_search {target : TypeName} (unvisited queue : List TypeName)
    (h : c.search target unvisited queue = true) :
    ∃ t ∈ queue, TransGen c.Derives t target := by
  induction unvisited, queue using queue_induction with
  | done => simp at h
  | skip unvisited t queue ht ih =>
    rw [search_skip ht] at h
    obtain ⟨s, hs, hpath⟩ := ih h
    exact ⟨s, List.mem_cons_of_mem _ hs, hpath⟩
  | visit unvisited t queue ht ih =>
    cases hinfo : c.describe t with
    | none =>
      rw [search_unknown ht hinfo] at h
      obtain ⟨s, hs, hpath⟩ := ih queue h
      exact ⟨s, List.mem_cons_of_mem _ hs, hpath⟩
    | some info =>
      rw [search_visit ht hinfo, Bool.or_eq_true, decide_eq_true_eq] at h
      rcases h with htarget | h
      · exact ⟨t, List.mem_cons_self, .single ⟨info, hinfo, htarget⟩⟩
      · obtain ⟨s, hs, hpath⟩ := ih _ h
        rcases List.mem_append.mp hs with hs | hs
        · exact ⟨s, List.mem_cons_of_mem _ hs, hpath⟩
        · exact ⟨t, List.mem_cons_self, .head ⟨info, hinfo, hs⟩ hpath⟩

variable (c) in
/-- What a search that fails leaves behind: the unvisited types of its queue have been visited then,
and a step from a visited type never leads to the target, nor to an unvisited type that is left
out. -/
structure Exhausts (target : TypeName) (unvisited queue : List TypeName)
    (visited : TypeName → Prop) : Prop where
  queued : ∀ t ∈ queue, t ∈ unvisited → visited t
  closed : ∀ t u, visited t → c.Derives t u → u ≠ target ∧ (u ∈ unvisited → visited u)

section Exhausts

variable {target t : TypeName} {unvisited queue queue' : List TypeName}
  {visited : TypeName → Prop}

/-- A type that has been visited before may stand in the queue. -/
theorem Exhausts.skip (h : c.Exhausts target unvisited queue visited) (ht : t ∉ unvisited) :
    c.Exhausts target unvisited (t :: queue) visited where
  queued s hs hmem := by
    rcases List.mem_cons.mp hs with rfl | hs
    · exact absurd hmem ht
    · exact h.queued s hs hmem
  closed := h.closed

/-- A type whose supertypes queue up joins what the rest of the search visits. -/
theorem Exhausts.visit (h : c.Exhausts target (without t unvisited) queue' visited)
    (hstep : ∀ u, c.Derives t u → u ≠ target ∧ u ∈ queue') (hsub : queue ⊆ queue') :
    c.Exhausts target unvisited (t :: queue) fun s => s = t ∨ visited s := by
  have hjoin : ∀ s, (s ∈ without t unvisited → visited s) → s ∈ unvisited →
      s = t ∨ visited s := by
    intro s hs hmem
    by_cases hst : s = t
    · exact .inl hst
    · exact .inr (hs (mem_without.mpr ⟨hmem, hst⟩))
  refine ⟨fun s hs => ?_, ?_⟩
  · rcases List.mem_cons.mp hs with rfl | hs
    · exact fun _ => .inl rfl
    · exact hjoin s (h.queued s (hsub hs))
  · rintro s u (rfl | hs) hsu
    · exact ⟨(hstep u hsu).1, hjoin u (h.queued u (hstep u hsu).2)⟩
    · exact ⟨(h.closed s u hs hsu).1, hjoin u (h.closed s u hs hsu).2⟩

/-- A search that fails has visited all that it could. -/
theorem exists_exhausts (unvisited queue : List TypeName)
    (h : c.search target unvisited queue = false) :
    ∃ visited, c.Exhausts target unvisited queue visited := by
  induction unvisited, queue using queue_induction with
  | done => exact ⟨fun _ => False, by simp, fun _ _ hfalse => hfalse.elim⟩
  | skip unvisited t queue ht ih =>
    rw [search_skip ht] at h
    obtain ⟨visited, hvisited⟩ := ih h
    exact ⟨visited, hvisited.skip ht⟩
  | visit unvisited t queue ht ih =>
    cases hinfo : c.describe t with
    | none =>
      rw [search_unknown ht hinfo] at h
      obtain ⟨visited, hvisited⟩ := ih queue h
      refine ⟨_, hvisited.visit ?_ (List.Subset.refl _)⟩
      rintro u ⟨info, hdesc, -⟩
      rw [hinfo] at hdesc
      cases hdesc
    | some info =>
      rw [search_visit ht hinfo, Bool.or_eq_false_iff, decide_eq_false_iff_not] at h
      obtain ⟨visited, hvisited⟩ := ih _ h.2
      refine ⟨_, hvisited.visit ?_ (List.subset_append_left _ _)⟩
      rintro u ⟨info', hdesc, hu⟩
      obtain rfl : info = info' := Option.some.inj (hinfo.symm.trans hdesc)
      exact ⟨fun hut => h.1 (hut ▸ hu), List.mem_append_right _ hu⟩

end Exhausts

/-- The search answers whether a path leads to the supertype. -/
theorem isSubtype_iff {sub super : TypeName} :
    c.isSubtype sub super = true ↔ c.Below sub super := by
  rw [isSubtype, Bool.or_eq_true, decide_eq_true_eq]
  constructor
  · rintro (rfl | h)
    · exact .refl
    · obtain ⟨t, ht, hpath⟩ := exists_transGen_of_search _ _ h
      rw [List.mem_singleton] at ht
      exact (ht ▸ hpath).to_reflTransGen
  · intro h
    by_contra hnot
    rw [not_or, Bool.not_eq_true] at hnot
    obtain ⟨visited, hsearched⟩ := exists_exhausts _ _ hnot.2
    have hvisited : ∀ t, c.Below sub t → visited t := by
      intro t ht
      induction ht with
      | refl => exact hsearched.queued sub (List.mem_singleton_self sub) (c.mem_above sub)
      | tail hpath hstep ih =>
        exact (hsearched.closed _ _ ih hstep).2 (mem_above_of_below (hpath.tail hstep))
    rcases ReflTransGen.cases_tail h with heq | ⟨t, hpath, hstep⟩
    · exact hnot.1 heq.symm
    · exact (hsearched.closed t super (hvisited t hpath) hstep).1 rfl

end Catalog

end Dispatch
