import Dispatch.Proofs.Hierarchy.Paths

/-!
# The levels of a type

`Catalog.levels` lists the types whose members a type has, in the order in which they are visited.

* `Catalog.mem_levels_iff`: they are the described types on `Catalog.Inherits`, each visited once
  (`Catalog.nodup_order`).
* `Catalog.Precedes` says that one type is visited and another is not visited before it. A type on
  the superclass chain precedes every type above it (`Catalog.precedes_of_extends`), and a type
  that fewer steps to interfaces lead to precedes those that more lead to
  (`Catalog.precedes_of_inheritsIn`). Among types at the same distance the order of declaration
  decides, and not which of them is derived from the other.
-/

namespace Dispatch

open Relation Hierarchy

namespace Catalog

variable {c : Catalog}

/-! ### The superclass chain -/

section Chain

variable {unvisited : List TypeName} {start : Option TypeName}

private theorem mem_of_mem_rest {t : TypeName} (h : t ∈ (c.superclasses unvisited start).2) :
    t ∈ unvisited := by
  induction unvisited, start using chain_induction with
  | top => simpa using h
  | stop unvisited s hs => simpa [superclasses_stop hs] using h
  | climb unvisited s hs ih =>
    cases hinfo : c.describe s with
    | none => exact (mem_without.mp (by simpa [superclasses_unknown hs hinfo] using h)).1
    | some info =>
      rw [superclasses_climb hs hinfo] at h
      exact (mem_without.mp (ih _ h)).1

/-- The start of a chain is visited. -/
private theorem start_not_mem_rest {t : TypeName} : t ∉ (c.superclasses unvisited (some t)).2 := by
  intro h
  by_cases ht : t ∈ unvisited
  · cases hinfo : c.describe t with
    | none => simp [superclasses_unknown ht hinfo] at h
    | some info =>
      rw [superclasses_climb ht hinfo] at h
      exact (mem_without.mp (mem_of_mem_rest h)).2 rfl
  · exact ht (mem_of_mem_rest h)

/-- What a chain holds: described types that were unvisited and no longer are, each reached from
the start by steps to superclasses. -/
private theorem of_mem_chain {step : Hierarchy.Step}
    (h : step ∈ (c.superclasses unvisited start).1) :
    c.describe step.1 = some step.2 ∧ step.1 ∈ unvisited ∧
      step.1 ∉ (c.superclasses unvisited start).2 ∧
        ∃ t, start = some t ∧ ReflTransGen c.Extends t step.1 := by
  induction unvisited, start using chain_induction with
  | top => simp at h
  | stop unvisited s hs => simp [superclasses_stop hs] at h
  | climb unvisited s hs ih =>
    cases hinfo : c.describe s with
    | none => simp [superclasses_unknown hs hinfo] at h
    | some info =>
      rw [superclasses_climb hs hinfo] at h ⊢
      rcases List.mem_cons.mp h with rfl | h
      · refine ⟨hinfo, hs, fun hrest => ?_, s, rfl, .refl⟩
        exact (mem_without.mp (mem_of_mem_rest hrest)).2 rfl
      · obtain ⟨hdesc, hmem, hrest, t, hsuper, hpath⟩ := ih _ h
        exact ⟨hdesc, (mem_without.mp hmem).1, hrest, s, rfl, .head ⟨info, hinfo, hsuper⟩ hpath⟩

/-- A described type that a chain has visited is on it. -/
private theorem mem_chain_of_not_mem_rest {t : TypeName} {info : TypeInfo} (ht : t ∈ unvisited)
    (hrest : t ∉ (c.superclasses unvisited start).2) (hinfo : c.describe t = some info) :
    (t, info) ∈ (c.superclasses unvisited start).1 := by
  induction unvisited, start using chain_induction with
  | top => exact absurd ht (by simpa using hrest)
  | stop unvisited s hs => exact absurd ht (by simpa [superclasses_stop hs] using hrest)
  | climb unvisited s hs ih =>
    by_cases hts : t = s
    · subst hts
      rw [superclasses_climb hs hinfo]
      exact List.mem_cons_self
    · have hwithout : t ∈ without s unvisited := mem_without.mpr ⟨ht, hts⟩
      cases hdesc : c.describe s with
      | none => exact absurd hwithout (by simpa [superclasses_unknown hs hdesc] using hrest)
      | some sinfo =>
        rw [superclasses_climb hs hdesc] at hrest ⊢
        exact List.mem_cons_of_mem _ (ih _ hwithout hrest)

/-- The superclass of a type on a chain is visited. -/
private theorem superclass_not_mem_rest {step : Hierarchy.Step} {u : TypeName}
    (h : step ∈ (c.superclasses unvisited start).1) (hu : step.2.superclass = some u) :
    u ∉ (c.superclasses unvisited start).2 := by
  induction unvisited, start using chain_induction with
  | top => simp at h
  | stop unvisited s hs => simp [superclasses_stop hs] at h
  | climb unvisited s hs ih =>
    cases hinfo : c.describe s with
    | none => simp [superclasses_unknown hs hinfo] at h
    | some info =>
      rw [superclasses_climb hs hinfo] at h ⊢
      rcases List.mem_cons.mp h with rfl | h
      · rw [show info.superclass = some u from hu]
        exact start_not_mem_rest
      · exact ih _ h

/-- Along a chain each type is reached from those before it by steps to superclasses, and no type
comes twice. -/
private theorem pairwise_chain :
    (c.superclasses unvisited start).1.Pairwise fun a b =>
      TransGen c.Extends a.1 b.1 ∧ a.1 ≠ b.1 := by
  induction unvisited, start using chain_induction with
  | top => simp
  | stop unvisited s hs => simp [superclasses_stop hs]
  | climb unvisited s hs ih =>
    cases hinfo : c.describe s with
    | none => simp [superclasses_unknown hs hinfo]
    | some info =>
      rw [superclasses_climb hs hinfo]
      refine List.pairwise_cons.mpr ⟨fun step hstep => ?_, ih _⟩
      obtain ⟨-, hmem, -, t, hsuper, hpath⟩ := of_mem_chain hstep
      exact ⟨.head' ⟨info, hinfo, hsuper⟩ hpath, fun heq => (mem_without.mp hmem).2 heq.symm⟩

end Chain

variable (c) in
/-- The superclass chain of `t`, itself first. -/
def chain (t : TypeName) : List Hierarchy.Step := (c.superclasses (c.above t) (some t)).1

variable (c) in
/-- The types above `t` that its superclass chain leaves unvisited. -/
def offChain (t : TypeName) : List TypeName := (c.superclasses (c.above t) (some t)).2

/-- The superclass chain holds the described types that steps to superclasses lead to. -/
theorem mem_chain_iff {t u : TypeName} {info : TypeInfo} :
    (u, info) ∈ c.chain t ↔ ReflTransGen c.Extends t u ∧ c.describe u = some info := by
  constructor
  · intro h
    obtain ⟨hdesc, -, -, s, hs, hpath⟩ := of_mem_chain h
    obtain rfl := Option.some.inj hs
    exact ⟨hpath, hdesc⟩
  · rintro ⟨hpath, hdesc⟩
    refine mem_chain_of_not_mem_rest (mem_above_of_below (below_of_extends hpath)) ?_ hdesc
    -- no type on the path is left unvisited: a visited one has its superclass visited
    induction hpath generalizing info with
    | refl => exact start_not_mem_rest
    | @tail s u hpath hstep ih =>
      obtain ⟨sinfo, hsinfo, hsuper⟩ := hstep
      have hs : (s, sinfo) ∈ c.chain t :=
        mem_chain_of_not_mem_rest (mem_above_of_below (below_of_extends hpath)) (ih hsinfo) hsinfo
      exact superclass_not_mem_rest hs hsuper

/-- What the chain leaves unvisited is what steps to superclasses do not lead to. -/
theorem mem_offChain_iff {t u : TypeName} {info : TypeInfo} (hu : c.describe u = some info) :
    u ∈ c.offChain t ↔ u ∈ c.above t ∧ ¬ ReflTransGen c.Extends t u := by
  constructor
  · intro h
    refine ⟨mem_of_mem_rest h, fun hpath => ?_⟩
    exact (of_mem_chain (mem_chain_iff.mpr ⟨hpath, hu⟩)).2.2.1 h
  · rintro ⟨hmem, hpath⟩
    by_contra hrest
    exact hpath (mem_chain_iff.mp (mem_chain_of_not_mem_rest hmem hrest hu)).1

/-! ### The interfaces, layer by layer -/

section Layers

variable {unvisited queue : List TypeName}

variable (c) in
/-- The described types of a queue, each visited once and not followed, and what they leave
unvisited. -/
def visit (unvisited : List TypeName) : List TypeName → List Hierarchy.Step × List TypeName
  | [] => ([], unvisited)
  | t :: queue =>
    if t ∈ unvisited then
      match c.describe t with
      | none => visit (without t unvisited) queue
      | some info =>
        ((t, info) :: (visit (without t unvisited) queue).1,
          (visit (without t unvisited) queue).2)
    else visit unvisited queue

/-- Every type of the queue has been visited afterwards, described or not. -/
theorem mem_visit_snd {t : TypeName} :
    t ∈ (c.visit unvisited queue).2 ↔ t ∈ unvisited ∧ t ∉ queue := by
  fun_induction visit c unvisited queue with
  | case1 => simp
  | case2 unvisited s queue hs hinfo ih => grind [mem_without]
  | case3 unvisited s queue hs info hinfo ih => grind [mem_without]
  | case4 unvisited s queue hs ih => grind

theorem mem_visit_fst {step : Hierarchy.Step} :
    step ∈ (c.visit unvisited queue).1 ↔
      step.1 ∈ queue ∧ step.1 ∈ unvisited ∧ c.describe step.1 = some step.2 := by
  obtain ⟨t, tinfo⟩ := step
  fun_induction visit c unvisited queue with
  | case1 => simp
  | case2 unvisited s queue hs hinfo ih => grind [mem_without]
  | case3 unvisited s queue hs info hinfo ih => grind [mem_without]
  | case4 unvisited s queue hs ih => grind

variable (c) in
/-- The interfaces that the types of a queue extend, in the order of the queue. -/
def nextQueue (unvisited queue : List TypeName) : List TypeName :=
  (c.visit unvisited queue).1.flatMap (·.2.interfaces)

/-- A type queues up after a layer if some newly visited type of the layer extends it. -/
theorem mem_nextQueue {u : TypeName} :
    u ∈ c.nextQueue unvisited queue ↔ ∃ t ∈ queue, t ∈ unvisited ∧ c.Implements t u := by
  constructor
  · intro h
    obtain ⟨⟨t, info⟩, ht, hu⟩ := List.mem_flatMap.mp h
    obtain ⟨hqueue, hmem, hinfo⟩ := mem_visit_fst.mp ht
    exact ⟨t, hqueue, hmem, info, hinfo, hu⟩
  · rintro ⟨t, hqueue, hmem, info, hinfo, hu⟩
    exact List.mem_flatMap.mpr ⟨(t, info), mem_visit_fst.mpr ⟨hqueue, hmem, hinfo⟩, hu⟩

/-- The walk visits what is in the queue before the interfaces that this extends. -/
theorem interfaces_append (pending : List TypeName) :
    c.interfaces unvisited (queue ++ pending) =
      (c.visit unvisited queue).1 ++ c.interfaces (c.visit unvisited queue).2
        (pending ++ c.nextQueue unvisited queue) := by
  unfold nextQueue
  fun_induction visit c unvisited queue generalizing pending with
  | case1 => simp
  | case2 unvisited s queue hs hinfo ih => simp [interfaces_unknown hs hinfo, ih]
  | case3 unvisited s queue hs info hinfo ih => simp [interfaces_visit hs hinfo, ih]
  | case4 unvisited s queue hs ih => simp [interfaces_skip hs, ih]

/-- The walk over interfaces goes by layers: the whole queue first, then everything that the types
of the queue extend. -/
theorem interfaces_eq_layers :
    c.interfaces unvisited queue =
      (c.visit unvisited queue).1 ++
        c.interfaces (c.visit unvisited queue).2 (c.nextQueue unvisited queue) := by
  have h := @interfaces_append c unvisited queue []
  rwa [List.append_nil, List.nil_append] at h

/-- Only described types are visited, each from the queue by steps to interfaces. -/
theorem of_mem_interfaces {step : Hierarchy.Step} (h : step ∈ c.interfaces unvisited queue) :
    c.describe step.1 = some step.2 ∧ step.1 ∈ unvisited ∧
      ∃ t ∈ queue, ∃ n, c.InterfacePath n t step.1 := by
  induction unvisited, queue using queue_induction with
  | done => simp at h
  | skip unvisited s queue hs ih =>
    rw [interfaces_skip hs] at h
    obtain ⟨hdesc, hmem, t, ht, hpath⟩ := ih h
    exact ⟨hdesc, hmem, t, List.mem_cons_of_mem _ ht, hpath⟩
  | visit unvisited s queue hs ih =>
    cases hinfo : c.describe s with
    | none =>
      rw [interfaces_unknown hs hinfo] at h
      obtain ⟨hdesc, hmem, t, ht, hpath⟩ := ih _ h
      exact ⟨hdesc, (mem_without.mp hmem).1, t, List.mem_cons_of_mem _ ht, hpath⟩
    | some info =>
      rw [interfaces_visit hs hinfo] at h
      rcases List.mem_cons.mp h with rfl | h
      · exact ⟨hinfo, hs, s, List.mem_cons_self, 0, rfl⟩
      · obtain ⟨hdesc, hmem, t, ht, n, hpath⟩ := ih _ h
        refine ⟨hdesc, (mem_without.mp hmem).1, ?_⟩
        rcases List.mem_append.mp ht with ht | ht
        · exact ⟨t, List.mem_cons_of_mem _ ht, n, hpath⟩
        · exact ⟨s, List.mem_cons_self, n + 1, t, ⟨info, hinfo, ht⟩, hpath⟩

/-- The walk over interfaces meets no type twice. -/
theorem nodup_interfaces : ((c.interfaces unvisited queue).map (·.1)).Nodup := by
  induction unvisited, queue using queue_induction with
  | done => simp
  | skip unvisited s queue hs ih => simpa [interfaces_skip hs] using ih
  | visit unvisited s queue hs ih =>
    cases hinfo : c.describe s with
    | none => simpa [interfaces_unknown hs hinfo] using ih queue
    | some info =>
      rw [interfaces_visit hs hinfo, List.map_cons, List.nodup_cons]
      refine ⟨fun hmem => ?_, ih _⟩
      obtain ⟨step, hstep, heq⟩ := List.mem_map.mp hmem
      exact (mem_without.mp (of_mem_interfaces hstep).2.1).2 heq

/-- A path into the unvisited types enters them by a step after which it is shorter. -/
private theorem exists_entry {n : Nat} {t u : TypeName} (h : c.InterfacePath n t u)
    (ht : t ∉ unvisited) (hu : u ∈ unvisited) :
    ∃ v w k, k < n ∧ c.Below t v ∧ v ∉ unvisited ∧ w ∈ unvisited ∧ c.Implements v w ∧
      c.InterfacePath k w u := by
  induction n generalizing t with
  | zero => exact absurd (h ▸ hu : t ∈ unvisited) ht
  | succ n ih =>
    obtain ⟨s, hts, hsu⟩ := h
    by_cases hs : s ∈ unvisited
    · exact ⟨t, s, n, Nat.lt_succ_self n, .refl, ht, hs, hts, hsu⟩
    · obtain ⟨v, w, k, hk, hv, hrest⟩ := ih hsu hs
      exact ⟨v, w, k, Nat.lt_succ_of_lt hk, hv.head hts.derives, hrest⟩

variable (c) in
/-- A queue lies in a list closed under steps upwards, and holds the unvisited interfaces of every
visited type of that list. -/
structure Frontier (all unvisited queue : List TypeName) : Prop where
  closed : ∀ {t u}, t ∈ all → c.Derives t u → u ∈ all
  queued : ∀ {t}, t ∈ queue → t ∈ all
  pending : ∀ {t u}, t ∈ all → t ∉ unvisited → c.Implements t u → u ∈ unvisited → u ∈ queue

variable {all : List TypeName}

/-- A list closed under steps upwards holds all that is above its members. -/
theorem Frontier.mem_of_below (h : c.Frontier all unvisited queue) {t u : TypeName}
    (hpath : c.Below t u) (ht : t ∈ all) : u ∈ all := by
  induction hpath with
  | refl => exact ht
  | tail _ hstep ih => exact h.closed ih hstep

/-- One layer of the visit keeps the invariant. -/
theorem Frontier.next (h : c.Frontier all unvisited queue) :
    c.Frontier all (c.visit unvisited queue).2 (c.nextQueue unvisited queue) where
  closed := h.closed
  queued ht := by
    obtain ⟨s, hs, -, hstep⟩ := mem_nextQueue.mp ht
    exact h.closed (h.queued hs) hstep.derives
  pending {t u} ht hvisited hstep hu := by
    obtain ⟨humem, huqueue⟩ := mem_visit_snd.mp hu
    -- what this layer visits queues its interfaces, and earlier types queued theirs for this layer
    by_cases hmem : t ∈ unvisited
    · refine mem_nextQueue.mpr ⟨t, ?_, hmem, hstep⟩
      by_contra hnot
      exact hvisited (mem_visit_snd.mpr ⟨hmem, hnot⟩)
    · exact absurd (h.pending ht hmem hstep humem) huqueue

/-- The walk visits the types that at most `n` steps to interfaces lead to from its queue before
all others. -/
theorem Frontier.exists_near (h : c.Frontier all unvisited queue) (n : Nat) :
    ∃ near far, c.interfaces unvisited queue = near ++ far ∧
      ∀ t info, t ∈ unvisited → c.describe t = some info →
        ((t, info) ∈ near ↔ ∃ k ≤ n, ∃ s ∈ queue, c.InterfacePath k s t) := by
  induction n generalizing unvisited queue with
  | zero =>
    refine ⟨_, _, interfaces_eq_layers, fun t info ht hinfo => ?_⟩
    rw [mem_visit_fst]
    constructor
    · rintro ⟨hmem, -, -⟩
      exact ⟨0, Nat.le_refl 0, t, hmem, rfl⟩
    · rintro ⟨k, hk, s, hs, hpath⟩
      obtain rfl : k = 0 := Nat.le_zero.mp hk
      exact ⟨(hpath : s = t) ▸ hs, ht, hinfo⟩
  | succ n ih =>
    obtain ⟨near, far, heq, hnear⟩ := ih h.next
    refine ⟨(c.visit unvisited queue).1 ++ near, far, ?_, fun t info ht hinfo => ?_⟩
    · rw [interfaces_eq_layers, heq, List.append_assoc]
    · rw [List.mem_append, mem_visit_fst]
      constructor
      · rintro (⟨hmem, -, -⟩ | hmem)
        · exact ⟨0, Nat.zero_le _, t, hmem, rfl⟩
        · have hrest : t ∈ (c.visit unvisited queue).2 :=
            (of_mem_interfaces (heq ▸ List.mem_append_left far hmem)).2.1
          obtain ⟨k, hk, s, hs, hpath⟩ := (hnear t info hrest hinfo).mp hmem
          obtain ⟨v, hv, -, hstep⟩ := mem_nextQueue.mp hs
          exact ⟨k + 1, Nat.succ_le_succ hk, v, hv, s, hstep, hpath⟩
      · rintro ⟨k, hk, s, hs, hpath⟩
        by_cases hmem : t ∈ queue
        · exact .inl ⟨hmem, ht, hinfo⟩
        · -- the path enters what this layer leaves, through a type of the next queue
          have hrest : t ∈ (c.visit unvisited queue).2 := mem_visit_snd.mpr ⟨ht, hmem⟩
          have hsrest : s ∉ (c.visit unvisited queue).2 := fun h => (mem_visit_snd.mp h).2 hs
          obtain ⟨v, w, j, hj, hsv, hv, hw, hstep, hwt⟩ := exists_entry hpath hsrest hrest
          have hvall : v ∈ all := h.mem_of_below hsv (h.queued hs)
          have hwqueue := h.next.pending hvall hv hstep hw
          exact .inr ((hnear t info hrest hinfo).mpr ⟨j, by omega, w, hwqueue, hwt⟩)

end Layers

/-! ### The levels -/

variable (c) in
/-- The types whose members `t` has, itself first. -/
def levels (t : TypeName) : List Hierarchy.Step :=
  c.chain t ++ c.interfaces (c.offChain t) ((c.chain t).flatMap (·.2.interfaces))

variable (c) in
/-- The names of the levels of `t` in the order in which they are visited. -/
def order (t : TypeName) : List TypeName := (c.levels t).map (·.1)

/-- The interfaces of the superclass chain are where the second half of the visit starts. -/
private theorem mem_chain_interfaces {t u : TypeName} :
    u ∈ (c.chain t).flatMap (·.2.interfaces) ↔
      ∃ s, ReflTransGen c.Extends t s ∧ c.Implements s u := by
  constructor
  · intro h
    obtain ⟨⟨s, info⟩, hs, hu⟩ := List.mem_flatMap.mp h
    obtain ⟨hpath, hinfo⟩ := mem_chain_iff.mp hs
    exact ⟨s, hpath, info, hinfo, hu⟩
  · rintro ⟨s, hpath, info, hinfo, hu⟩
    exact List.mem_flatMap.mpr ⟨(s, info), mem_chain_iff.mpr ⟨hpath, hinfo⟩, hu⟩

/-- The invariant holds where the superclasses have been visited and their interfaces queue up. -/
theorem frontier_chain (t : TypeName) :
    c.Frontier (c.above t) (c.offChain t) ((c.chain t).flatMap (·.2.interfaces)) where
  closed hu := by
    rintro ⟨info, hinfo, hmem⟩
    exact c.above_closed hu hinfo hmem
  queued hu := by
    obtain ⟨s, hpath, hstep⟩ := mem_chain_interfaces.mp hu
    exact mem_above_of_below ((below_of_extends hpath).tail hstep.derives)
  pending {s u} hs hvisited hstep hu := by
    obtain ⟨info, hinfo, hmem⟩ := hstep
    refine mem_chain_interfaces.mpr ⟨s, ?_, info, hinfo, hmem⟩
    by_contra hpath
    exact hvisited ((mem_offChain_iff hinfo).mpr ⟨hs, hpath⟩)

/-- The levels of a type are the described types that it inherits from. -/
theorem mem_levels_iff {t u : TypeName} {info : TypeInfo} :
    (u, info) ∈ c.levels t ↔ c.Inherits t u ∧ c.describe u = some info := by
  rw [levels, List.mem_append, mem_chain_iff]
  constructor
  · rintro (⟨hpath, hinfo⟩ | h)
    · exact ⟨⟨0, u, hpath, rfl⟩, hinfo⟩
    · obtain ⟨hinfo, -, s, hs, n, hsu⟩ := of_mem_interfaces h
      obtain ⟨v, htv, hvs⟩ := mem_chain_interfaces.mp hs
      exact ⟨⟨n + 1, v, htv, s, hvs, hsu⟩, hinfo⟩
  · rintro ⟨hinh, hinfo⟩
    -- off the chain, the first of the steps to interfaces leads into the queue of the walk
    by_cases hchain : ReflTransGen c.Extends t u
    · exact .inl ⟨hchain, hinfo⟩
    · obtain ⟨n, s, hts, hsu⟩ := id hinh
      cases n with
      | zero => exact absurd ((hsu : s = u) ▸ hts) hchain
      | succ n =>
        obtain ⟨v, hsv, hvu⟩ := hsu
        obtain ⟨near, far, heq, hnear⟩ := (frontier_chain t).exists_near n
        have hu : u ∈ c.offChain t :=
          (mem_offChain_iff hinfo).mpr ⟨mem_above_of_below hinh.below, hchain⟩
        have hv : v ∈ (c.chain t).flatMap (·.2.interfaces) :=
          mem_chain_interfaces.mpr ⟨s, hts, hsv⟩
        have hmem := (hnear u info hu hinfo).mpr ⟨n, Nat.le_refl n, v, hv, hvu⟩
        exact .inr (heq ▸ List.mem_append_left far hmem)

/-- The visit of `t` meets the described types that steps to superclasses and then steps to
interfaces lead to, and no others. -/
theorem mem_order_iff {t u : TypeName} :
    u ∈ c.order t ↔ c.Inherits t u ∧ ∃ info, c.describe u = some info := by
  simp [order, mem_levels_iff]

/-- No level is visited twice, however many ways lead to it. -/
theorem nodup_order (t : TypeName) : (c.order t).Nodup := by
  rw [order, levels, List.map_append, List.nodup_append]
  refine ⟨?_, nodup_interfaces, ?_⟩
  · exact List.pairwise_map.mpr (pairwise_chain.imp And.right)
  · intro u hu v hv heq
    -- the walk through the interfaces gets only what the chain has left unvisited
    obtain ⟨step, hstep, rfl⟩ := List.mem_map.mp hu
    obtain ⟨step', hstep', rfl⟩ := List.mem_map.mp hv
    exact (of_mem_chain hstep).2.2.1 (heq ▸ (of_mem_interfaces hstep').2.1)

/-! ### Who is visited first -/

variable (c) in
/-- On the visit of the levels of `t`, `a` is met, and `b` is not met before. -/
def Precedes (t a b : TypeName) : Prop :=
  a ≠ b ∧ ∃ before after, c.order t = before ++ a :: after ∧ b ∉ before

/-- What occurs in a front part of the walk precedes what does not. -/
private theorem precedes_of_prefix {t a b : TypeName} {front back : List Hierarchy.Step}
    {info : TypeInfo} (h : c.levels t = front ++ back) (ha : (a, info) ∈ front)
    (hb : ∀ binfo, (b, binfo) ∉ front) : c.Precedes t a b := by
  obtain ⟨pre, post, rfl⟩ := List.append_of_mem ha
  refine ⟨fun heq => hb info (heq ▸ ha), pre.map (·.1), (post ++ back).map (·.1), ?_, ?_⟩
  · simp [order, h]
  · intro hmem
    obtain ⟨⟨u, uinfo⟩, hu, rfl⟩ := List.mem_map.mp hmem
    exact hb uinfo (List.mem_append_left _ hu)

/-- A type on the superclass chain precedes every type above it. -/
theorem precedes_of_extends (hac : c.Acyclic) {t a b : TypeName} {info : TypeInfo}
    (hchain : ReflTransGen c.Extends t a) (ha : c.describe a = some info)
    (hab : TransGen c.Derives a b) : c.Precedes t a b := by
  have hne : a ≠ b := fun heq => hac a (heq ▸ hab)
  obtain ⟨pre, post, heq⟩ := List.append_of_mem (mem_chain_iff.mpr ⟨hchain, ha⟩)
  refine ⟨hne, pre.map (·.1), _, by simp [order, levels, heq]; rfl, fun hmem => ?_⟩
  obtain ⟨⟨u, uinfo⟩, hu, rfl⟩ := List.mem_map.mp hmem
  -- were `b` earlier on the chain, `a` would be above it as well
  have hpair : (pre ++ (a, info) :: post).Pairwise fun x y =>
      TransGen c.Extends x.1 y.1 ∧ x.1 ≠ y.1 := heq ▸ pairwise_chain
  have hua := ((List.pairwise_append.mp hpair).2.2 _ hu _ List.mem_cons_self).1
  have hmono : c.Extends ≤ c.Derives := fun _ _ hstep => hstep.derives
  exact hac a (hab.trans (TransGen.mono hmono _ _ hua))

/-- A type that `n` steps to interfaces lead to precedes every type that only more lead to. -/
theorem precedes_of_inheritsIn {n : Nat} {t a b : TypeName} {info : TypeInfo}
    (hta : c.InheritsIn n t a) (ha : c.describe a = some info)
    (hb : ∀ k ≤ n, ¬ c.InheritsIn k t b) : c.Precedes t a b := by
  have hbchain : ∀ binfo, (b, binfo) ∉ c.chain t := fun binfo hmem =>
    hb 0 (Nat.zero_le n) ⟨b, (mem_chain_iff.mp hmem).1, rfl⟩
  by_cases hchain : ReflTransGen c.Extends t a
  · exact precedes_of_prefix rfl (mem_chain_iff.mpr ⟨hchain, ha⟩) hbchain
  · obtain ⟨s, hts, hsa⟩ := id hta
    cases n with
    | zero => exact absurd ((hsa : s = a) ▸ hts) hchain
    | succ n =>
      obtain ⟨v, hsv, hva⟩ := hsa
      obtain ⟨near, far, heq, hnear⟩ := (frontier_chain t).exists_near n
      have haoff : a ∈ c.offChain t :=
        (mem_offChain_iff ha).mpr ⟨mem_above_of_below (Inherits.below ⟨_, hta⟩), hchain⟩
      have hanear : (a, info) ∈ near :=
        (hnear a info haoff ha).mpr
          ⟨n, Nat.le_refl n, v, mem_chain_interfaces.mpr ⟨s, hts, hsv⟩, hva⟩
      have hlevels : c.levels t = (c.chain t ++ near) ++ far := by
        rw [levels, heq, List.append_assoc]
      refine precedes_of_prefix hlevels (List.mem_append_right _ hanear) fun binfo hmem => ?_
      rcases List.mem_append.mp hmem with hmem | hmem
      · exact hbchain binfo hmem
      · obtain ⟨hbinfo, hboff, -⟩ := of_mem_interfaces (heq ▸ List.mem_append_left far hmem)
        obtain ⟨k, hk, w, hw, hwb⟩ := (hnear b binfo hboff hbinfo).mp hmem
        obtain ⟨x, htx, hxw⟩ := mem_chain_interfaces.mp hw
        exact hb (k + 1) (Nat.succ_le_succ hk) ⟨x, htx, w, hxw, hwb⟩

end Catalog

end Dispatch
