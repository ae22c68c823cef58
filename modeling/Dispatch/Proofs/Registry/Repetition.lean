import Dispatch.Proofs.Hierarchy.Subtyping
import Dispatch.Proofs.Registry.Growth

/-!
# Computations that are repeated

A question that the registry has been asked is answered from what it keeps, and what it keeps it
does not lose. So a computation that is made a second time, at once or after any other moves, asks
nothing: it leaves the registry as it is, the log of questions included. `RegistryM.Repeats` adds
this to what a computation yields.

* `Registry.repeats_info?`, `Registry.repeats_members?`: the questions for descriptions and members.
* `RegistryM.Asks.repeats`: all that consists of such questions, and so every resolution.
-/

namespace Dispatch

namespace RegistryM

variable {α β : Type} {c : Catalog}

/-- On every registry that agrees with the catalog a computation gives `a`, and once it has been
made, the registry has all that it asks for: made again, at once or later, it changes nothing. -/
structure Repeats (c : Catalog) (run : RegistryM α) (a : α) : Prop where
  yields : Yields c run a
  again : ∀ {r r'}, c.Agrees r → (run r).2.Moves c r' → (run r').2 = r'

namespace Repeats

variable {run : RegistryM α} {a : α}

theorem pure (a : α) : Repeats c (Pure.pure a) a := ⟨.pure a, fun _ _ => rfl⟩

/-- The parts of a computation are repeated one after another: what follows the first part only
adds to what the registry has. -/
theorem bind {f : α → RegistryM β} {b : β} (hrun : Repeats c run a) (hf : Repeats c (f a) b) :
    Repeats c (run >>= f) b := by
  refine ⟨hrun.yields.bind hf.yields, fun {r r'} hr hmoves => ?_⟩
  have hfirst := hrun.yields r hr
  have hr₁ := hr.moves hfirst.moves
  have hsecond := hf.yields _ hr₁
  rw [bind_apply, hfirst.post] at hmoves
  have hr' := (hr₁.moves hsecond.moves).moves hmoves
  rw [bind_apply, (hrun.yields r' hr').post, hrun.again hr (hsecond.moves.trans hmoves)]
  exact hf.again hr₁ hmoves

/-- A computation made before gives its answer again and leaves the registry alone. -/
theorem apply_again {r r' : Registry} (hrun : Repeats c run a) (hr : c.Agrees r)
    (hmoves : (run r).2.Moves c r') : run r' = (a, r') := by
  have hr' := (hr.moves (hrun.yields r hr).moves).moves hmoves
  exact Prod.ext (hrun.yields r' hr').post (hrun.again hr hmoves)

end Repeats

end RegistryM

namespace Registry

open RegistryM

variable {c : Catalog} {r r' : Registry} {t : TypeName}

/-! ### Descriptions -/

/-- A type whose description is at hand is not asked for. -/
theorem learn_of_answered (h : r.Answered (.describe t)) : r.learn c t = r := by
  rcases learn_cases c r t with ⟨-, heq⟩ | ⟨hnew, hunknown, -⟩
  · exact heq
  · rcases h with hknows | hmem
    · simp [Knows, hnew] at hknows
    · exact absurd hmem hunknown

theorem entryOf?_of_answered (h : r.Answered (.describe t)) : entryOf? c t r = (r.find? t, r) := by
  have happly : entryOf? c t r = ((r.learn c t).find? t, r.learn c t) := rfl
  rw [happly, learn_of_answered h]

/-- A type that has been met is not asked for again. -/
theorem learn_again (hr : c.Agrees r) (h : (r.learn c t).Moves c r') : r'.learn c t = r' := by
  have hlearned : c.Agrees (r.learn c t) := hr.move (.learn (.describe r t))
  exact learn_of_answered ((h.grows hlearned).answered (answered_learn c r t))

theorem repeats_info? (t : TypeName) : Repeats c (info? c t) (c.describe t) :=
  ⟨yields_info? t, learn_again⟩

/-! ### Members -/

/-- A type whose members have been asked for is loaded, or known not to be described. -/
theorem ensures_loaded (hr : c.Agrees r) (t : TypeName) :
    Ensures c r (members? c t) fun _ r' => r'.isLoaded t = true ∨ t ∈ r'.unknown := by
  have hentry : Ensures c r (entryOf? c t) fun e r' =>
      e = r'.find? t ∧ r'.Answered (.describe t) :=
    ⟨(ensures_entry hr t).learns, (ensures_entry hr t).post.1, answered_learn c r t⟩
  refine hentry.bind fun e r₁ hmoves he => ?_
  obtain ⟨rfl, hanswered⟩ := he
  have hr₁ := hr.moves hmoves
  cases he : r₁.find? t with
  | none => exact .pure (.inr (hanswered.resolve_left (by simp [Knows, he])))
  | some e =>
    dsimp only
    cases hm : e.members with
    | some found => exact .pure (.inl (by simp [isLoaded, he, hm]))
    | none =>
      have hknows : r₁.Knows t := Option.isSome_of_eq_some he
      have htable : c.memberTable? t = some (c.membersOf t e.info) := by
        simp [Catalog.memberTable?, hr₁.info he]
      refine (ensures_collect hr₁ hknows e.info).bind fun found r₂ hmoves₂ hfound => ?_
      subst hfound
      refine (Ensures.modify (.keep r₂ htable)).bind fun _ r₃ _ hr₃ => .pure (.inl ?_)
      obtain ⟨e₂, he₂⟩ := Option.isSome_iff_exists.mp (hmoves₂.knows hknows)
      simp [isLoaded, hr₃, he₂]

/-- Nothing is done for members that have been collected. -/
theorem members?_of_isLoaded (h : r.isLoaded t = true) : (members? c t r).2 = r := by
  obtain ⟨e, he, hloaded⟩ := (Option.any_eq_true _ _).mp h
  obtain ⟨found, hfound⟩ := Option.isSome_iff_exists.mp hloaded
  have hknows : r.Knows t := Option.isSome_of_eq_some he
  unfold members?
  rw [RegistryM.bind_apply, entryOf?_of_answered (.inl hknows), he]
  dsimp only
  rw [hfound]
  rfl

/-- Nothing is done for a type that is known not to be described. -/
theorem members?_of_mem_unknown (hr : c.Agrees r) (h : t ∈ r.unknown) :
    (members? c t r).2 = r := by
  have hnone : r.find? t = none := by
    cases he : r.find? t with
    | none => rfl
    | some e =>
      have hinfo := hr.info he
      rw [hr.unknown h] at hinfo
      cases hinfo
  unfold members?
  rw [RegistryM.bind_apply, entryOf?_of_answered (.inr h), hnone]
  rfl

/-- The members of a type are collected once. -/
theorem repeats_members? (t : TypeName) : Repeats c (members? c t) (c.memberTable? t) := by
  refine ⟨yields_members? t, fun {r r'} hr hmoves => ?_⟩
  have hmembers := ensures_loaded hr t
  have hafter := hr.moves hmembers.moves
  have hgrows := hmoves.grows hafter
  rcases hmembers.post with hloaded | hunknown
  · exact members?_of_isLoaded (hgrows.isLoaded hloaded)
  · exact members?_of_mem_unknown (hafter.moves hmoves) (hgrows.unknown.subset hunknown)

end Registry

/-! ### Questions -/

/-- What consists of questions for descriptions and members is repeated without asking them. -/
theorem RegistryM.Asks.repeats {α : Type} {c : Catalog} {run : RegistryM α} {a : α}
    (h : Asks c run a) : Repeats c run a := by
  induction h with
  | pure a => exact .pure a
  | bind _ _ ihrun ihf => exact ihrun.bind ihf
  | info t => exact Registry.repeats_info? t
  | members t => exact Registry.repeats_members? t

end Dispatch
