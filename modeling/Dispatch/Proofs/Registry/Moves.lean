import Dispatch.Proofs.Members.Kept
import Dispatch.Registry.Import

/-!
# Moves of the registry

Everything done on a registry comes down to a few changes of it, the moves. Most of them only learn
something about the catalog; a type is registered by one kind of move alone. `Catalog.Agrees` says
that what a registry keeps is what the catalog would say anew; the moves preserve it, so it holds
of whatever a computation reaches by moves.

`RegistryM.Ensures` is what is proved of one computation that registers nothing, from one registry,
and `RegistryM.Yields` says that its answer does not depend on the registry at all, as long as that
agrees with the catalog. `RegistryM.Registers` says which types a computation registers besides.
-/

namespace Dispatch

open Relation

namespace Registry

/-! ### Moves -/

/-- One change of a registry over a catalog by which it learns something and registers nothing. -/
inductive Learn (c : Catalog) : Registry → Registry → Prop
  | describe (r : Registry) (t : TypeName) : Learn c r (r.learn c t)
  | list (r : Registry) (t : TypeName) : Learn c r (r.learnListing c t)
  /-- The members of a type are kept as the catalog gives them. -/
  | keep (r : Registry) {t : TypeName} {m : Members} (h : c.memberTable? t = some m) :
      Learn c r (r.update t fun e => { e with members := some m })
  | scan (r : Registry) (ns : String) : Learn c r (r.log (.typesIn ns))
  | seek (r : Registry) (name : String) : Learn c r (r.log (.findType name))

/-- One change of a registry over a catalog. -/
inductive Move (c : Catalog) : Registry → Registry → Prop
  | learn {r r' : Registry} (h : Learn c r r') : Move c r r'
  /-- A type with an entry is registered under the simple name that the catalog gives it. -/
  | enroll (r : Registry) {t : TypeName} {e : Entry} (h : r.find? t = some e) :
      Move c r (r.enroll e.info.simple t)
  | remember (r : Registry) (text : String) :
      Move c r { r with imports := r.imports ++ [text] }

/-- Any number of changes that register nothing. -/
def Learns (c : Catalog) : Registry → Registry → Prop := ReflTransGen (Learn c)

/-- Any number of changes. -/
def Moves (c : Catalog) : Registry → Registry → Prop := ReflTransGen (Move c)

/-- The registry has an entry for a type. -/
def Knows (r : Registry) (t : TypeName) : Prop := (r.find? t).isSome = true

variable {c : Catalog} {r r' : Registry} {t u : TypeName}

/-- A type that has been met before changes nothing. A new one is asked for, and kept as the catalog
describes it or as unknown. -/
theorem learn_cases (c : Catalog) (r : Registry) (t : TypeName) :
    (r.Knows t ∨ t ∈ r.unknown) ∧ r.learn c t = r ∨
      r.find? t = none ∧ t ∉ r.unknown ∧
        ((∃ info, c.describe t = some info ∧ r.learn c t =
            { r.log (.describe t) with entries := r.entries.insert t { info } }) ∨
          c.describe t = none ∧
            r.learn c t = { r.log (.describe t) with unknown := r.unknown ++ [t] }) := by
  unfold learn
  split
  · next h => exact .inl ⟨by simpa [Knows, find?, Table.contains] using h, rfl⟩
  · next h =>
    have hnew : r.find? t = none ∧ t ∉ r.unknown := by
      simpa [find?, Table.contains] using h
    refine .inr ⟨hnew.1, hnew.2, ?_⟩
    cases hdesc : c.describe t with
    | none => exact .inr ⟨rfl, rfl⟩
    | some info => exact .inl ⟨info, rfl, rfl⟩

/-- A listing is asked for of a type with an entry, unless it has been before. -/
theorem learnListing_cases (c : Catalog) (r : Registry) (t : TypeName) :
    (∀ e, r.find? t = some e → e.listing.isSome = true) ∧ r.learnListing c t = r ∨
      ∃ e, r.find? t = some e ∧ e.listing = none ∧ r.learnListing c t =
        (r.log (.members t)).update t fun e => { e with listing := some (c.members t) } := by
  unfold learnListing
  split
  · next info members h => exact .inr ⟨_, h, rfl, rfl⟩
  · next h =>
    refine .inl ⟨fun e he => ?_, rfl⟩
    by_contra hnone
    obtain ⟨info, listing, members⟩ := e
    obtain rfl : listing = none := by simpa using hnone
    exact h info members he

/-- The first question about a type enters its description, and later ones find it. -/
theorem find?_learn (c : Catalog) (r : Registry) (t u : TypeName) :
    (r.learn c t).find? u =
      if u = t ∧ r.find? t = none ∧ t ∉ r.unknown then (c.describe t).map ({ info := · })
      else r.find? u := by
  rcases learn_cases c r t with ⟨hmet, heq⟩ | ⟨hnew, hunknown, ⟨info, hinfo, heq⟩ | ⟨hinfo, heq⟩⟩
  · have hnot : ¬ (u = t ∧ r.find? t = none ∧ t ∉ r.unknown) := by
      rintro ⟨-, hnew, hunknown⟩
      rcases hmet with hknown | hmem
      · simp [Knows, hnew] at hknown
      · exact hunknown hmem
    rw [heq, if_neg hnot]
  · have hinsert : (r.learn c t).find? u = if u = t then some { info } else r.find? u := by
      rw [heq]
      exact Table.find?_insert r.entries t u _
    simp [hinsert, hnew, hunknown, hinfo]
  · have hsame : (r.learn c t).find? u = r.find? u := by rw [heq]; rfl
    rw [hsame]
    by_cases hu : u = t <;> simp [hu, hnew, hinfo]

/-- A type that the catalog does not describe is noted once. -/
theorem mem_unknown_learn :
    u ∈ (r.learn c t).unknown ↔
      u ∈ r.unknown ∨ u = t ∧ r.find? t = none ∧ c.describe t = none := by
  rcases learn_cases c r t with ⟨hmet, heq⟩ | ⟨hnew, -, ⟨info, hinfo, heq⟩ | ⟨hinfo, heq⟩⟩
  · rw [heq, or_iff_left_of_imp]
    rintro ⟨rfl, hnew, -⟩
    exact hmet.resolve_left (by simp [Knows, hnew])
  · simp [heq, hinfo, log]
  · simp [heq, hnew, hinfo]

/-- A listing is entered where there is none, and stays as it is otherwise. -/
theorem find?_learnListing (c : Catalog) (r : Registry) (t u : TypeName) :
    (r.learnListing c t).find? u =
      if u = t then
        (r.find? u).map fun e => { e with listing := some (e.listing.getD (c.members t)) }
      else r.find? u := by
  rcases learnListing_cases c r t with ⟨hasked, heq⟩ | ⟨e, he, hlisting, heq⟩
  · rw [heq]
    split
    · next hu =>
      subst hu
      cases he : r.find? u with
      | none => rfl
      | some e =>
        obtain ⟨l, hl⟩ := Option.isSome_iff_exists.mp (hasked e he)
        rw [Option.map_some, hl, Option.getD_some, ← hl]
    · rfl
  · rw [heq, find?_update, find?_log]
    by_cases hu : u = t
    · simp [hu, he, hlisting]
    · rw [if_neg hu, if_neg hu]

theorem learnListing_unknown : (r.learnListing c t).unknown = r.unknown := by
  rcases learnListing_cases c r t with ⟨-, heq⟩ | ⟨e, -, -, heq⟩
  · rw [heq]
  · rw [heq]
    rfl

theorem Learns.moves (h : r.Learns c r') : r.Moves c r' :=
  h.lift id fun _ _ => Move.learn

/-- Learning registers nothing, so it leaves every simple name where it points. -/
theorem Learns.frame (h : r.Learns c r') :
    r'.registrations = r.registrations ∧ r'.simpleNames = r.simpleNames ∧
      r'.collisions = r.collisions := by
  induction h with
  | refl => exact ⟨rfl, rfl, rfl⟩
  | @tail r₁ _ _ hlearn ih =>
    obtain ⟨hregistrations, hnames, hcollisions⟩ := ih
    rw [← hregistrations, ← hnames, ← hcollisions]
    cases hlearn with
    | describe t =>
      rcases learn_cases c r₁ t with ⟨-, heq⟩ | ⟨-, -, ⟨info, -, heq⟩ | ⟨-, heq⟩⟩ <;> rw [heq] <;>
        exact ⟨rfl, rfl, rfl⟩
    | list t =>
      rcases learnListing_cases c r₁ t with ⟨-, heq⟩ | ⟨e, -, -, heq⟩ <;> rw [heq] <;>
        exact ⟨rfl, rfl, rfl⟩
    | keep _ | scan | seek => exact ⟨rfl, rfl, rfl⟩

/-- What is kept of a type after a move: what was kept before, with a listing or members that the
catalog may have added, or a description of which nothing was known. -/
theorem Move.entry_cases (h : Move c r r') {e' : Entry} (he' : r'.find? t = some e') :
    (∃ e, r.find? t = some e ∧ e'.info = e.info ∧
      (e'.listing = e.listing ∨ e.listing = none ∧ e'.listing = some (c.members t)) ∧
        (e'.members = e.members ∨ e'.members = c.memberTable? t)) ∨
    r.find? t = none ∧ t ∉ r.unknown ∧ ∃ info, c.describe t = some info ∧ e' = { info } := by
  cases h with
  | learn h =>
    cases h with
    | describe u =>
      rw [find?_learn] at he'
      split at he'
      · next hu =>
        obtain ⟨rfl, hnone, hunknown⟩ := hu
        obtain ⟨info, hinfo, rfl⟩ := Option.map_eq_some_iff.mp he'
        exact .inr ⟨hnone, hunknown, info, hinfo, rfl⟩
      · exact .inl ⟨e', he', rfl, .inl rfl, .inl rfl⟩
    | list u =>
      rw [find?_learnListing] at he'
      split at he'
      · next hu =>
        obtain ⟨e, he, rfl⟩ := Option.map_eq_some_iff.mp he'
        refine .inl ⟨e, he, rfl, ?_, .inl rfl⟩
        cases hl : e.listing with
        | none => exact .inr ⟨rfl, by simp [hu]⟩
        | some l => exact .inl (by simp)
      · exact .inl ⟨e', he', rfl, .inl rfl, .inl rfl⟩
    | keep hm =>
      rw [find?_update] at he'
      split at he'
      · next hu =>
        obtain ⟨e, he, rfl⟩ := Option.map_eq_some_iff.mp he'
        exact .inl ⟨e, he, rfl, .inl rfl, .inr (by rw [hu, hm])⟩
      · exact .inl ⟨e', he', rfl, .inl rfl, .inl rfl⟩
    | scan | seek => exact .inl ⟨e', he', rfl, .inl rfl, .inl rfl⟩
  | enroll _ | remember => exact .inl ⟨e', he', rfl, .inl rfl, .inl rfl⟩

/-- A type is noted as not described only on a question that the catalog has denied. -/
theorem Move.unknown_cases (h : Move c r r') (ht : t ∈ r'.unknown) :
    t ∈ r.unknown ∨ r.find? t = none ∧ c.describe t = none := by
  cases h with
  | learn h =>
    cases h with
    | describe u =>
      rcases mem_unknown_learn.mp ht with hold | ⟨rfl, hnew⟩
      · exact .inl hold
      · exact .inr hnew
    | list u => exact .inl (learnListing_unknown ▸ ht)
    | keep _ | scan | seek => exact .inl ht
  | enroll _ | remember => exact .inl ht

/-- Entries are never lost, and keep their descriptions. -/
theorem Move.exists_entry (h : Move c r r') {e : Entry} (he : r.find? t = some e) :
    ∃ e', r'.find? t = some e' ∧ e'.info = e.info := by
  cases h with
  | learn h =>
    cases h with
    | describe u =>
      have hknown : ¬ (t = u ∧ r.find? u = none ∧ u ∉ r.unknown) := by
        rintro ⟨rfl, hnone, -⟩
        simp [he] at hnone
      exact ⟨e, by rw [find?_learn, if_neg hknown, he], rfl⟩
    | list u =>
      rw [find?_learnListing]
      split <;> simp [he]
    | keep hm =>
      rw [find?_update]
      split <;> simp [he]
    | scan | seek => exact ⟨e, he, rfl⟩
  | enroll _ | remember => exact ⟨e, he, rfl⟩

/-- An entry stays, with the same description. -/
theorem Moves.exists_entry (h : r.Moves c r') {e : Entry} (he : r.find? t = some e) :
    ∃ e', r'.find? t = some e' ∧ e'.info = e.info := by
  induction h with
  | refl => exact ⟨e, he, rfl⟩
  | tail _ hmove ih =>
    obtain ⟨e', he', hinfo'⟩ := ih
    obtain ⟨e'', he'', hinfo''⟩ := hmove.exists_entry he'
    exact ⟨e'', he'', hinfo''.trans hinfo'⟩

theorem Moves.knows (h : r.Moves c r') (ht : r.Knows t) : r'.Knows t := by
  obtain ⟨e, he⟩ := Option.isSome_iff_exists.mp ht
  obtain ⟨e', he', -⟩ := h.exists_entry he
  exact Option.isSome_iff_exists.mpr ⟨e', he'⟩

end Registry

/-! ### Agreement with the catalog -/

open Registry

/-- What the registry keeps is what the catalog says. -/
structure Catalog.Agrees (c : Catalog) (r : Registry) : Prop where
  info : ∀ {t e}, r.find? t = some e → c.describe t = some e.info
  listing : ∀ {t e l}, r.find? t = some e → e.listing = some l → l = c.members t
  members : ∀ {t e m}, r.find? t = some e → e.members = some m → c.memberTable? t = some m
  unknown : ∀ {t}, t ∈ r.unknown → c.describe t = none

variable {c : Catalog} {r r' : Registry}

namespace Catalog

theorem agrees_empty (c : Catalog) : c.Agrees {} where
  info h := by cases h
  listing h := by cases h
  members h := by cases h
  unknown h := by cases h

/-- What a change enters is taken from the catalog. -/
theorem Agrees.move (h : c.Agrees r) (hmove : Move c r r') : c.Agrees r' where
  info he' := by
    rcases hmove.entry_cases he' with ⟨e, he, hinfo, -⟩ | ⟨-, -, info, hinfo, rfl⟩
    · rw [hinfo]
      exact h.info he
    · exact hinfo
  listing he' hl := by
    rcases hmove.entry_cases he' with ⟨e, he, -, hsame | ⟨-, hnew⟩, -⟩ | ⟨-, -, info, -, rfl⟩
    · exact h.listing he (hsame.symm.trans hl)
    · exact Option.some.inj (hl.symm.trans hnew)
    · cases hl
  members he' hm := by
    rcases hmove.entry_cases he' with ⟨e, he, -, -, hsame | hnew⟩ | ⟨-, -, info, -, rfl⟩
    · exact h.members he (hsame.symm.trans hm)
    · exact hnew.symm.trans hm
    · cases hm
  unknown ht := by
    rcases hmove.unknown_cases ht with hold | ⟨-, hnew⟩
    · exact h.unknown hold
    · exact hnew

theorem Agrees.moves (h : c.Agrees r) (hmoves : r.Moves c r') : c.Agrees r' := by
  induction hmoves with
  | refl => exact h
  | tail _ hmove ih => exact ih.move hmove

end Catalog

/-! ### What a computation does -/

namespace RegistryM

variable {α β : Type}

theorem bind_apply (run : RegistryM α) (f : α → RegistryM β) (r : Registry) :
    (run >>= f) r = f (run r).1 (run r).2 := rfl

/-- From `r` a computation changes the registry by learning alone, and its answer and the registry
that it reaches satisfy `post`. -/
structure Ensures (c : Catalog) (r : Registry) (run : RegistryM α)
    (post : α → Registry → Prop) : Prop where
  learns : r.Learns c (run r).2
  post : post (run r).1 (run r).2

/-- On every registry that agrees with the catalog, a computation gives `a`. -/
def Yields (c : Catalog) (run : RegistryM α) (a : α) : Prop :=
  ∀ r, c.Agrees r → Ensures c r run fun b _ => b = a

section Ensures

variable {run : RegistryM α} {f : α → RegistryM β} {P P' : α → Registry → Prop}
  {Q : β → Registry → Prop}

theorem Ensures.moves (h : Ensures c r run P) : r.Moves c (run r).2 := h.learns.moves

theorem Ensures.pure {a : α} (h : P a r) : Ensures c r (Pure.pure a) P := ⟨.refl, h⟩

/-- What follows may assume what the first computation ensures, in the registry that it leaves. -/
theorem Ensures.bind (hrun : Ensures c r run P)
    (hf : ∀ a r', r.Moves c r' → P a r' → Ensures c r' (f a) Q) :
    Ensures c r (run >>= f) Q :=
  have hnext := hf _ _ hrun.moves hrun.post
  ⟨hrun.learns.trans hnext.learns, hnext.post⟩

theorem Ensures.weaken (hrun : Ensures c r run P)
    (himp : ∀ a r', r.Moves c r' → P a r' → P' a r') : Ensures c r run P' :=
  ⟨hrun.learns, himp _ _ hrun.moves hrun.post⟩

theorem Ensures.modify {g : Registry → Registry} (h : Learn c r (g r)) :
    Ensures c r (modify g) fun _ r' => r' = g r :=
  ⟨.single h, rfl⟩

theorem Ensures.get : Ensures c r MonadState.get fun a r' => a = r ∧ r' = r := ⟨.refl, rfl, rfl⟩

end Ensures

section Yields

variable {run : RegistryM α} {a : α}

theorem Yields.pure (a : α) : Yields c (Pure.pure a) a := fun _ _ => .pure rfl

/-- Answers that do not depend on the registry may be used one after another. -/
theorem Yields.bind {f : α → RegistryM β} {b : β} (hrun : Yields c run a)
    (hf : Yields c (f a) b) : Yields c (run >>= f) b := by
  intro r hr
  refine (hrun r hr).bind fun a' r' hmoves ha' => ?_
  subst ha'
  exact hf r' (hr.moves hmoves)

theorem Yields.map (hrun : Yields c run a) (g : α → β) : Yields c (g <$> run) (g a) := by
  intro r hr
  have h := hrun r hr
  exact ⟨h.learns, congrArg g h.post⟩

theorem Yields.mapM {f : α → RegistryM β} {g : α → β} (hf : ∀ a, Yields c (f a) (g a))
    (l : List α) : Yields c (l.mapM f) (l.map g) := by
  induction l with
  | nil => exact .pure []
  | cons a rest ih =>
    rw [List.mapM_cons, List.map_cons]
    exact (hf a).bind (ih.bind (.pure _))

end Yields

/-- From `r` a computation gives `a` and registers `ts`, one after another. -/
structure Enrolls (c : Catalog) (r : Registry) (run : RegistryM α) (a : α) (ts : List TypeName) :
    Prop where
  answer : (run r).1 = a
  moves : r.Moves c (run r).2
  registrations : (run r).2.registrations = r.registrations ++ ts

/-- On every registry that agrees with the catalog, a computation gives `a` and registers `ts`. -/
def Registers (c : Catalog) (run : RegistryM α) (a : α) (ts : List TypeName) : Prop :=
  ∀ r, c.Agrees r → Enrolls c r run a ts

section Registers

variable {run : RegistryM α} {a : α} {ts us : List TypeName}

theorem Enrolls.pure (a : α) : Enrolls c r (Pure.pure a) a [] :=
  ⟨rfl, .refl, (List.append_nil _).symm⟩

theorem Enrolls.map (hrun : Enrolls c r run a ts) (g : α → β) :
    Enrolls c r (g <$> run) (g a) ts :=
  ⟨congrArg g hrun.answer, hrun.moves, hrun.registrations⟩

/-- What follows a computation that registers nothing may use what that ensures. -/
theorem Ensures.enrolls {P : α → Registry → Prop} {f : α → RegistryM β} {b : β}
    (hrun : Ensures c r run P)
    (hf : ∀ a r', r.Moves c r' → P a r' → Enrolls c r' (f a) b us) :
    Enrolls c r (run >>= f) b us := by
  have hnext := hf _ _ hrun.moves hrun.post
  have hregs := hnext.registrations
  rw [hrun.learns.frame.1] at hregs
  exact ⟨hnext.answer, hrun.moves.trans hnext.moves, hregs⟩

theorem Yields.registers (hrun : Yields c run a) : Registers c run a [] := by
  intro r hr
  have h := hrun r hr
  exact ⟨h.post, h.moves, by rw [h.learns.frame.1, List.append_nil]⟩

/-- The registrations of a sequence are those of its parts, in order. -/
theorem Enrolls.bind {f : α → RegistryM β} {b : β} (hrun : Enrolls c r run a ts)
    (hf : ∀ r', r.Moves c r' → Enrolls c r' (f a) b us) :
    Enrolls c r (run >>= f) b (ts ++ us) := by
  have hnext := hf _ hrun.moves
  rw [← hrun.answer] at hnext
  refine ⟨hnext.answer, hrun.moves.trans hnext.moves, ?_⟩
  have hregs : ((run >>= f) r).2.registrations = (run r).2.registrations ++ us :=
    hnext.registrations
  rw [hregs, hrun.registrations, List.append_assoc]

theorem Registers.bind {f : α → RegistryM β} {b : β} (hrun : Registers c run a ts)
    (hf : Registers c (f a) b us) : Registers c (run >>= f) b (ts ++ us) :=
  fun r hr => (hrun r hr).bind fun r' hmoves => hf r' (hr.moves hmoves)

end Registers

end RegistryM

end Dispatch
