import Dispatch.Proofs.Dispatcher.Names
import Mathlib.Data.List.Chain

/-!
# Collisions of simple names

Whenever a simple name is taken from one type by another, the registry enters a collision. Those of
one name lead from the first type that was registered under it, through every type that took the
name from another, to the type that it points to now: `Catalog.Trail`. They can be read off the
types registered under the name, one after another, and so can where the name points.

* `Catalog.Trails.moves`: whatever is done on a registry, the collisions of every name are a trail.
* `Dispatcher.named?_and_collisions`: where a name points and how it came to point there, after
  every session.
-/

namespace Dispatch

namespace Catalog

variable {c : Catalog} {r r' : Registry} {simple : String} {t u : TypeName} {ts : List TypeName}
  {ks : List Collision}

/-! ### The trail of a name -/

/-- The collisions `ks` lead from the first of the types `ts` to the last: each replaces one type by
another, which the next replaces. Without a collision all of the types are one. -/
structure Trail (ts : List TypeName) (ks : List Collision) : Prop where
  replaced_ne_winner : ∀ k ∈ ks, k.replaced ≠ k.winner
  chain : ks.IsChain fun k l => k.winner = l.replaced
  head : ∀ k, ks.head? = some k → ts.head? = some k.replaced
  last : ∀ k, ks.getLast? = some k → ts.getLast? = some k.winner
  single : ks = [] → ∀ t ∈ ts, ∀ u ∈ ts, t = u

theorem trail_nil : Trail [] [] where
  replaced_ne_winner _ hk := nomatch hk
  chain := .nil
  head _ hk := nomatch hk
  last _ hk := nomatch hk
  single _ _ ht := nomatch ht

theorem trail_singleton (t : TypeName) : Trail [t] [] where
  replaced_ne_winner _ hk := nomatch hk
  chain := .nil
  head _ hk := nomatch hk
  last _ hk := nomatch hk
  single _ _ hu _ hv := (List.mem_singleton.mp hu).trans (List.mem_singleton.mp hv).symm

/-- The same type once more leaves the trail. -/
theorem Trail.stay (h : Trail ts ks) (ht : ts.getLast? = some t) : Trail (ts ++ [t]) ks where
  replaced_ne_winner := h.replaced_ne_winner
  chain := h.chain
  head k hk := by
    rw [List.head?_append, h.head k hk, Option.some_or]
  last k hk := by
    rw [List.getLast?_concat, ← ht, h.last k hk]
  single hks := by
    have hmem : t ∈ ts := List.mem_of_getLast? ht
    have hall : ∀ u ∈ ts ++ [t], u = t := by
      intro u hu
      rcases List.mem_append.mp hu with hu | hu
      · exact h.single hks u hu t hmem
      · exact List.mem_singleton.mp hu
    exact fun u hu v hv => (hall u hu).trans (hall v hv).symm

/-- Another type continues the trail from the last one. -/
theorem Trail.step (h : Trail ts ks) (hu : ts.getLast? = some u) (hne : u ≠ t) :
    Trail (ts ++ [t]) (ks ++ [⟨simple, u, t⟩]) where
  replaced_ne_winner k hk := by
    rcases List.mem_append.mp hk with hk | hk
    · exact h.replaced_ne_winner k hk
    · obtain rfl := List.mem_singleton.mp hk
      exact hne
  chain := by
    refine List.isChain_append.mpr ⟨h.chain, .singleton _, fun k hk l hl => ?_⟩
    obtain rfl := Option.some.inj hl
    exact Option.some.inj ((h.last k hk).symm.trans hu)
  head k hk := by
    have hmem : u ∈ ts := List.mem_of_getLast? hu
    rw [List.head?_append_of_ne_nil _ (List.ne_nil_of_mem hmem)]
    cases hks : ks with
    | nil =>
      rw [hks] at hk
      obtain rfl := Option.some.inj hk
      -- so far all types were one, and this is the first of them as well as the last
      obtain ⟨v, hv⟩ := Option.isSome_iff_exists.mp
        (List.isSome_head?.mpr (List.ne_nil_of_mem hmem))
      rw [hv, h.single hks v (List.mem_of_head? hv) u hmem]
    | cons l rest =>
      rw [hks] at hk
      obtain rfl := Option.some.inj hk
      exact h.head l (by rw [hks]; rfl)
  last k hk := by
    rw [List.getLast?_concat] at hk ⊢
    obtain rfl := Option.some.inj hk
    rfl
  single hks := absurd hks (List.append_ne_nil_of_right_ne_nil _ (List.cons_ne_nil _ _))

/-- A trail needs types to lead through. -/
theorem Trail.eq_nil (h : Trail [] ks) : ks = [] := by
  cases ks with
  | nil => rfl
  | cons k rest => exact nomatch h.head k rfl

/-- Whichever type comes next, the trail goes on as the registry enters collisions, if the name
points to the last type. -/
theorem Trail.concat (h : Trail ts ks) (hnamed : r.named? simple = ts.getLast?) (t : TypeName) :
    Trail (ts ++ [t]) (ks ++ (r.collision? simple t).toList) := by
  unfold Registry.collision?
  rw [hnamed]
  cases hlast : ts.getLast? with
  | none =>
    obtain rfl := List.getLast?_eq_none_iff.mp hlast
    obtain rfl := h.eq_nil
    exact trail_singleton t
  | some u =>
    by_cases hut : u = t
    · have hstay : Trail (ts ++ [t]) ks := h.stay (hut ▸ hlast)
      simpa [hut] using hstay
    · have hstep : Trail (ts ++ [t]) (ks ++ [⟨simple, u, t⟩]) := h.step hlast hut
      simpa [hut] using hstep

/-! ### The trails of a registry -/

variable (c) in
/-- The types of a list that go by a simple name. -/
def goingBy (simple : String) (ts : List TypeName) : List TypeName := ts.filter (c.goesBy simple)

/-- The type that a name points to ends the list of the types that go by it. -/
theorem lastNamed?_eq_getLast? : c.lastNamed? simple ts = (c.goingBy simple ts).getLast? := by
  rw [lastNamed?, goingBy, List.getLast?_filter]

/-- A registration adds a type to the list of its own simple name alone. -/
theorem goingBy_concat {info : TypeInfo} (ht : c.describe t = some info) :
    c.goingBy simple (ts ++ [t]) =
      c.goingBy simple ts ++ if info.simple = simple then [t] else [] := by
  rw [goingBy, List.filter_append, List.filter_singleton, goesBy_of_describe ht, goingBy]
  by_cases h : info.simple = simple <;> simp [h]

variable (c) in
/-- The collisions of every simple name are a trail of the types registered under it. -/
def Trails (r : Registry) : Prop :=
  ∀ simple, Trail (c.goingBy simple r.registrations) (r.collisions.filter (·.simple = simple))

theorem trails_empty (c : Catalog) : c.Trails {} := fun _ => trail_nil

theorem simple_of_collision? {k : Collision} (h : r.collision? simple t = some k) :
    k.simple = simple := by
  unfold Registry.collision? at h
  grind

/-- The collision of a registration counts under the name registered and under no other. -/
theorem filter_collision? (name : String) :
    (r.collision? name t).toList.filter (·.simple = simple) =
      if name = simple then (r.collision? name t).toList else [] := by
  cases hk : r.collision? name t with
  | none => simp
  | some k =>
    obtain rfl := simple_of_collision? hk
    by_cases h : k.simple = simple <;> simp [h]

/-- A registration extends the trail of its name by at most one collision, from the type that the
name pointed to. -/
theorem Trails.move (h : c.Trails r) (hnames : c.Names r) (hr : c.Agrees r)
    (hmove : Registry.Move c r r') : c.Trails r' := by
  intro simple
  cases hmove with
  | learn hlearn =>
    obtain ⟨hregistrations, -, hcollisions⟩ := Registry.Learns.frame (.single hlearn)
    rw [hregistrations, hcollisions]
    exact h simple
  | @enroll t e he =>
    have hregistrations : (r.enroll e.info.simple t).registrations = r.registrations ++ [t] := rfl
    have hcollisions : (r.enroll e.info.simple t).collisions =
        r.collisions ++ (r.collision? e.info.simple t).toList := rfl
    rw [hregistrations, hcollisions, goingBy_concat (hr.info he), List.filter_append,
      filter_collision?]
    by_cases hsimple : e.info.simple = simple
    · rw [if_pos hsimple, if_pos hsimple, hsimple]
      exact (h simple).concat ((hnames simple).trans lastNamed?_eq_getLast?) t
    · rw [if_neg hsimple, if_neg hsimple, List.append_nil, List.append_nil]
      exact h simple
  | remember text => exact h simple

/-- Trails last under any number of changes. -/
theorem Trails.moves (h : c.Trails r) (hnames : c.Names r) (hr : c.Agrees r)
    (hmoves : r.Moves c r') : c.Trails r' := by
  induction hmoves with
  | refl => exact h
  | tail hmoves hmove ih => exact ih.move (hnames.moves hr hmoves) (hr.moves hmoves) hmove

end Catalog

namespace Registry

variable {c : Catalog} {r r' : Registry}

/-- Registered types have entries. -/
theorem Moves.knows_of_isRegistered (h : Moves c {} r) {t : TypeName}
    (ht : r.isRegistered t = true) : r.Knows t := by
  induction h with
  | refl => exact nomatch ht
  | @tail r₁ r₂ _ hmove ih =>
    have hkeeps : r₁.Knows t → r₂.Knows t := Moves.knows (.single hmove)
    cases hmove with
    | learn hlearn =>
      have hframe := Learns.frame (.single hlearn)
      rw [isRegistered, hframe.1] at ht
      exact hkeeps (ih ht)
    | @enroll u e he =>
      rw [isRegistered_enroll, Bool.or_eq_true, beq_iff_eq] at ht
      rcases ht with ht | rfl
      · exact hkeeps (ih ht)
      · exact Option.isSome_of_eq_some he
    | remember text => exact hkeeps (ih ht)

end Registry

namespace Dispatcher

variable {σ : Type} {d : Dispatcher σ} {s : State σ} {simple : String} {t : TypeName}

theorem Reached.trails (h : d.Reached s) : d.catalog.Trails s.registry :=
  (Catalog.trails_empty _).moves (Catalog.names_empty _) (Catalog.agrees_empty _) h.registry_moves

/-- A type is registered under a simple name exactly if it is registered and the registry has it
under this name. -/
theorem Reached.mem_goingBy (h : d.Reached s) :
    t ∈ d.catalog.goingBy simple s.registry.registrations ↔
      s.registry.isRegistered t = true ∧
        ∃ e, s.registry.find? t = some e ∧ e.info.simple = simple := by
  rw [Catalog.goingBy, List.mem_filter, Registry.isRegistered, decide_eq_true_eq]
  refine and_congr_right fun ht => ?_
  obtain ⟨e, he⟩ := Option.isSome_iff_exists.mp
    (h.registry_moves.knows_of_isRegistered (decide_eq_true ht))
  rw [Catalog.goesBy_of_describe (h.agrees.info he), decide_eq_true_eq]
  constructor
  · intro hsimple
    exact ⟨e, he, hsimple⟩
  · rintro ⟨e', he', hsimple⟩
    obtain rfl := Option.some.inj (he.symm.trans he')
    exact hsimple

/-- A simple name points to the last type that was registered under it. -/
theorem Reached.named?_eq_getLast? (h : d.Reached s) :
    s.registry.named? simple =
      (d.catalog.goingBy simple s.registry.registrations).getLast? := by
  rw [h.names simple, Catalog.lastNamed?_eq_getLast?]

/-- A simple name is taken exactly if some registered type goes by it. -/
theorem Reached.named?_isSome_iff (h : d.Reached s) :
    (s.registry.named? simple).isSome = true ↔
      ∃ t, s.registry.isRegistered t = true ∧
        ∃ e, s.registry.find? t = some e ∧ e.info.simple = simple := by
  rw [h.named?_eq_getLast?, List.getLast?_isSome]
  constructor
  · intro hne
    obtain ⟨t, ht⟩ := List.exists_mem_of_ne_nil _ hne
    exact ⟨t, h.mem_goingBy.mp ht⟩
  · rintro ⟨t, ht⟩
    exact List.ne_nil_of_mem (h.mem_goingBy.mpr ht)

/-- The type that a name points to goes by that name. -/
theorem Reached.simpleNameOf?_of_named? (h : d.Reached s)
    (hnamed : s.registry.named? simple = some t) :
    (Registry.simpleNameOf? d.catalog t s.registry).1 = some simple := by
  rw [h.named?_eq_getLast?] at hnamed
  obtain ⟨-, e, he, hsimple⟩ := h.mem_goingBy.mp (List.mem_of_getLast? hnamed)
  rw [h.answer_eq (Registry.yields_simpleNameOf? t), h.agrees.info he, Option.map_some, hsimple]

/-- Only registered types are pointed to. -/
theorem Reached.isImported_eq (h : d.Reached s) :
    s.registry.isImported simple = (s.registry.named? simple).isSome := by
  rw [Registry.isImported]
  cases hnamed : s.registry.named? simple with
  | none => rfl
  | some t => exact h.isRegistered_of_named? hnamed

/-- After every session, a simple name points to the type that was registered last among those that
go by the name, and to none if none was registered; what it points to is registered and has this
simple name. The collisions of the name form a trail from the first type ever registered under it
to this one. -/
theorem named?_and_collisions (d : Dispatcher σ) (host : σ) (steps : List Step)
    (simple : String) :
    let r := (d.after steps (d.start host)).registry
    let under := d.catalog.goingBy simple (d.registeredBy (d.start host) steps)
    let collisions := r.collisions.filter (·.simple = simple)
    (∀ t, t ∈ under ↔
        r.isRegistered t = true ∧ ∃ e, r.find? t = some e ∧ e.info.simple = simple) ∧
      r.named? simple = under.getLast? ∧
      ((r.named? simple).isSome = true ↔
        ∃ t, r.isRegistered t = true ∧ ∃ e, r.find? t = some e ∧ e.info.simple = simple) ∧
      (∀ t, r.named? simple = some t → r.isRegistered t = true ∧
        (Registry.simpleNameOf? d.catalog t r).1 = some simple) ∧
      r.isImported simple = (r.named? simple).isSome ∧
      (∀ k ∈ collisions, k.replaced ≠ k.winner) ∧
      (collisions.IsChain fun k l => k.winner = l.replaced) ∧
      (∀ k, collisions.head? = some k → under.head? = some k.replaced) ∧
      (∀ k, collisions.getLast? = some k → r.named? simple = some k.winner) ∧
      (collisions = [] → ∀ t ∈ under, ∀ u ∈ under, t = u) := by
  intro r under collisions
  have hs : d.Reached (d.after steps (d.start host)) := ⟨host, steps, rfl⟩
  have hunder : d.catalog.goingBy simple r.registrations = under :=
    congrArg (d.catalog.goingBy simple) (registrations_after (Catalog.agrees_empty _) steps)
  have hnamed : r.named? simple = under.getLast? := hunder ▸ hs.named?_eq_getLast?
  have htrail : Catalog.Trail under collisions := hunder ▸ hs.trails simple
  refine ⟨fun t => hunder ▸ hs.mem_goingBy, hnamed, hs.named?_isSome_iff, fun t ht => ?_,
    hs.isImported_eq, htrail.replaced_ne_winner, htrail.chain, htrail.head, fun k hk => ?_,
    htrail.single⟩
  · exact ⟨hs.isRegistered_of_named? ht, hs.simpleNameOf?_of_named? ht⟩
  · rw [hnamed]
    exact htrail.last k hk

end Dispatcher

end Dispatch
