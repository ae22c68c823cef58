import Dispatch.Proofs.Resolution.Meaning
import Dispatch.Session

/-!
# Changes of a dispatcher

Whatever a dispatcher is asked to do changes its state in a few ways (`Dispatcher.Change`): its
registry learns or registers, a successful resolution is remembered, the toggle for decimals is
set, the host is called. `Dispatcher.Within` says of a computation which of these it may do, and
what a computation leaves alone follows from the list, by lemmas on `Dispatcher.Moves` that know
nothing of operations.

* `Dispatcher.Within`, with its closure under sequences, and one lemma `within_…` for each operation.
* `Dispatcher.Follows`: operations that first make the type known that they work on. Only this part
  of them registers.
* `Dispatcher.within_perform`: a step makes the changes that `Step.changes` lists for it.
* `Dispatcher.Reached`: the states that a session reaches. In all of them the registry agrees with
  the catalog.
-/

namespace Dispatch

open Relation (ReflTransGen)

/-! ### Running a computation that may fail -/

namespace Fallible

variable {ε ρ α β : Type}

theorem bind_apply (run : ExceptT ε (StateM ρ) α) (f : α → ExceptT ε (StateM ρ) β) (s : ρ) :
    (run >>= f) s =
      match (run s).1 with
      | .ok a => f a (run s).2
      | .error e => (.error e, (run s).2) := by
  have hbind : (run >>= f) s = ExceptT.bindCont f (run s).1 (run s).2 := rfl
  rw [hbind]
  cases (run s).1 <;> rfl

theorem map_apply (f : α → β) (run : ExceptT ε (StateM ρ) α) (s : ρ) :
    (f <$> run) s = ((run s).1.map f, (run s).2) := by
  have hmap : (f <$> run) s = (run >>= fun a => Pure.pure (f a)) s := rfl
  rw [hmap, bind_apply]
  cases (run s).1 <;> rfl

@[simp]
theorem pure_apply (a : α) (s : ρ) : (Pure.pure a : ExceptT ε (StateM ρ) α) s = (.ok a, s) := rfl

@[simp]
theorem throw_apply (e : ε) (s : ρ) : (throw e : ExceptT ε (StateM ρ) α) s = (.error e, s) := rfl

@[simp]
theorem get_apply (s : ρ) : (MonadState.get : ExceptT ε (StateM ρ) ρ) s = (.ok s, s) := rfl

@[simp]
theorem modify_apply (g : ρ → ρ) (s : ρ) :
    (modify g : ExceptT ε (StateM ρ) PUnit) s = (.ok ⟨⟩, g s) := rfl

end Fallible

/-! ### Steps on the registry -/

/-- The types that a step on the registry registers. -/
def RegistryStep.registers (c : Catalog) (r : Registry) : RegistryStep → List TypeName
  | register t => [t].filter fun u => (c.describe u).isSome
  | importText scanner text => r.importedBy c scanner text
  | _ => []

/-- A step on the registry registers the types that `registers` lists for it, in that order, and no
others. -/
theorem RegistryStep.exists_enrolls {c : Catalog} (step : RegistryStep) {r : Registry}
    (hr : c.Agrees r) :
    ∃ answer, RegistryM.Enrolls c r (step.perform c) answer (step.registers c r) := by
  have hyields : ∀ {α : Type} {run : RegistryM α} {a : α} (f : α → RegistryAnswer),
      RegistryM.Yields c run a → ∃ answer, RegistryM.Enrolls c r (f <$> run) answer [] :=
    fun f h => ⟨_, (h.map f).registers r hr⟩
  cases step with
  | register t => exact ⟨_, (Registry.registers_register t r hr).map _⟩
  | load t => exact hyields _ (Registry.yields_load t)
  | importText scanner text =>
    obtain ⟨outcome, henrolls⟩ := Registry.exists_enrolls_importText hr scanner text
    exact ⟨_, henrolls.map _⟩
  | methods t name => exact hyields _ (Registry.yields_methods t name)
  | constructors t => exact hyields _ (Registry.yields_constructors t)
  | field t name => exact hyields _ (Registry.yields_field? t name)
  | hasMethod t name => exact hyields _ (Registry.yields_hasMethod t name)
  | simpleNameOf t => exact hyields _ (Registry.yields_simpleNameOf? t)
  | info t => exact hyields _ (Registry.yields_info? t)
  | nestedNamed t simple => exact hyields _ (Registry.yields_nestedNamed? t simple)
  | isSubtype sub sup => exact hyields _ (Registry.yields_isSubtype sub sup)
  | isSequence t => exact hyields _ (Registry.yields_isSequence t)
  | scoreTable recast args params =>
    exact hyields _ (.mapM (fun v => .mapM (Registry.yields_scoreArgument? v) params) args)
  | scoreMembers recast t name args =>
    have hscores : ∀ os, RegistryM.Yields c
        (do
          let scores ← Registry.scores c recast args os
          let selected ← Registry.select? c recast args os
          return RegistryAnswer.scores scores selected)
        (.scores (os.map fun o => (o, c.score? recast args o)) (c.select? recast args os)) :=
      fun os =>
        (Registry.yields_scores args os).bind ((Registry.yields_select? args os).bind (.pure _))
    cases name with
    | some name =>
      exact ⟨_, ((Registry.yields_methods t name).bind (hscores _)).registers r hr⟩
    | none => exact ⟨_, ((Registry.yields_constructors t).bind (hscores _)).registers r hr⟩

namespace Dispatcher

open DispatchM Fallible

variable {σ α β : Type} (d : Dispatcher σ)

/-! ### Moves -/

/-- The kinds of change of the state of a dispatcher. -/
inductive Change
  /-- The registry learns what the catalog says. -/
  | learn
  /-- The registry changes in any way that it can. -/
  | register
  /-- What a call resolves to is remembered. -/
  | remember
  /-- The ranking of decimals by magnitude is turned on or off. -/
  | recast
  /-- The host is called. -/
  | host
deriving DecidableEq

/-- One change, of a given kind, of the state of a dispatcher. -/
inductive Move : Change → State σ → State σ → Prop
  | learn (s : State σ) {r : Registry} (h : s.registry.Learns d.catalog r) :
      Move .learn s { s with registry := r }
  | register (s : State σ) {r : Registry} (h : s.registry.Moves d.catalog r) :
      Move .register s { s with registry := r }
  /-- A binding is remembered under the shape of the call. -/
  | remember (s : State σ) {recast : Bool} {v : Value} {r : Receiver} {name : String}
      {args : List Value} {b : Binding} (hr : Receiver.of? v = some r)
      (hb : d.catalog.resolve recast r name args = .ok b) :
      Move .remember s { s with memo := s.memo.insert (CallShape.of recast r name args) b }
  | recast (s : State σ) (on : Bool) : Move .recast s { s with recast := on }
  | host (s : State σ) (h : σ) : Move .host s { s with host := h }

/-- Any number of changes, all of them of the given kinds. -/
def Moves (changes : List Change) : State σ → State σ → Prop :=
  ReflTransGen fun s s' => ∃ change ∈ changes, d.Move change s s'

variable {d} {s s' : State σ} {changes changes' : List Change}

/-- What is done by changes of few kinds is done by changes of more. -/
theorem Moves.mono (h : d.Moves changes s s') (hsub : changes ⊆ changes') :
    d.Moves changes' s s' :=
  h.lift id fun _ _ ⟨change, hchange, hmove⟩ => ⟨change, hsub hchange, hmove⟩

/-- The registry of a dispatcher changes by moves of its own. -/
theorem Moves.registry (h : d.Moves changes s s') : s.registry.Moves d.catalog s'.registry := by
  induction h with
  | refl => exact .refl
  | tail _ hstep ih =>
    obtain ⟨_, _, hmove⟩ := hstep
    cases hmove with
    | learn _ hr => exact ih.trans hr.moves
    | register _ hr => exact ih.trans hr
    | remember | recast | host => exact ih

/-- Changes keep the registry in agreement with the catalog. -/
theorem Moves.agrees (h : d.Moves changes s s') (hs : d.catalog.Agrees s.registry) :
    d.catalog.Agrees s'.registry :=
  hs.moves h.registry

/-- A part of the state that no change of the given kinds touches stays as it is. -/
theorem Moves.unchanged {γ : Type} (h : d.Moves changes s s') (part : State σ → γ)
    (hpart : ∀ {change s s'}, change ∈ changes → d.Move change s s' → part s' = part s) :
    part s' = part s := by
  induction h with
  | refl => rfl
  | tail _ hstep ih =>
    obtain ⟨_, hchange, hmove⟩ := hstep
    exact (hpart hchange hmove).trans ih

/-- Learning registers nothing, and neither does what leaves the registry alone. -/
theorem Moves.registrations (h : d.Moves changes s s') (hno : .register ∉ changes) :
    s'.registry.registrations = s.registry.registrations :=
  h.unchanged (·.registry.registrations) fun hchange hmove => by
    cases hmove with
    | learn _ hr => exact hr.frame.1
    | register => exact absurd hchange hno
    | remember | recast | host => rfl

/-- The memo changes only when something is remembered. -/
theorem Moves.memo (h : d.Moves changes s s') (hno : .remember ∉ changes) : s'.memo = s.memo :=
  h.unchanged (·.memo) fun hchange hmove => by
    cases hmove with
    | remember => exact absurd hchange hno
    | learn | register | recast | host => rfl

/-- Decimals are ranked as before unless that is asked for. -/
theorem Moves.recast (h : d.Moves changes s s') (hno : .recast ∉ changes) :
    s'.recast = s.recast :=
  h.unchanged (·.recast) fun hchange hmove => by
    cases hmove with
    | recast => exact absurd hchange hno
    | learn | register | remember | host => rfl

/-- The host stays as it is unless it is called. -/
theorem Moves.host (h : d.Moves changes s s') (hno : .host ∉ changes) : s'.host = s.host :=
  h.unchanged (·.host) fun hchange hmove => by
    cases hmove with
    | host => exact absurd hchange hno
    | learn | register | remember | recast => rfl

/-! ### What a computation changes -/

variable (d) in
/-- What a computation comes to that makes changes of the given kinds alone, when it starts from
`s`. If it does not call the host, a failure did not come from there. -/
structure Made (changes : List Change) (s : State σ) (result : Except DispatchError α × State σ) :
    Prop where
  moves : d.Moves changes s result.2
  failure : .host ∉ changes → NotFromHost result.1

variable (d) in
/-- From a state whose registry agrees with the catalog, a computation makes changes of the given
kinds alone. -/
def Within (changes : List Change) (run : DispatchM σ α) : Prop :=
  ∀ s, d.catalog.Agrees s.registry → d.Made changes s (run s)

/-- The registry still agrees with the catalog after a computation. -/
theorem Made.agrees {result : Except DispatchError α × State σ} (h : d.Made changes s result)
    (hs : d.catalog.Agrees s.registry) : d.catalog.Agrees result.2.registry :=
  h.moves.agrees hs

namespace Within

variable {run : DispatchM σ α} {f : α → DispatchM σ β}

theorem pure (a : α) : d.Within changes (Pure.pure a) := fun _ _ => ⟨.refl, fun _ => .ok a⟩

theorem throw {e : DispatchError} (he : e.isHostFailure = false) :
    d.Within changes (throw e : DispatchM σ α) := fun _ _ => ⟨.refl, fun _ => .error he⟩

theorem get : d.Within changes MonadState.get := fun s _ => ⟨.refl, fun _ => .ok s⟩

/-- A change of the state is within its own kind. -/
theorem modify {change : Change} {g : State σ → State σ} (h : ∀ s, d.Move change s (g s)) :
    d.Within [change] (modify g) :=
  fun s _ => ⟨.single ⟨change, List.mem_singleton_self _, h s⟩, fun _ => .ok _⟩

/-- A computation that makes some kinds of change makes no more than a larger list of kinds. -/
theorem mono (h : d.Within changes run) (hsub : changes ⊆ changes') : d.Within changes' run :=
  fun s hs => ⟨(h s hs).moves.mono hsub, fun hno => (h s hs).failure fun hin => hno (hsub hin)⟩

/-- What follows may assume what the first computation gives, and that it was run. -/
theorem bind_of_ok (hrun : d.Within changes run)
    (hf : ∀ s a, d.catalog.Agrees s.registry → (run s).1 = .ok a → d.Within changes (f a)) :
    d.Within changes (run >>= f) := by
  intro s hs
  have hfirst := hrun s hs
  rw [bind_apply]
  cases ha : (run s).1 with
  | error e => exact ⟨hfirst.moves, fun hno => .error (hfirst.failure hno e ha)⟩
  | ok a =>
    have hnext := hf s a hs ha _ (hfirst.agrees hs)
    exact ⟨hfirst.moves.trans hnext.moves, hnext.failure⟩

/-- A sequence makes no kind of change that none of its parts makes. -/
theorem bind (hrun : d.Within changes run) (hf : ∀ a, d.Within changes (f a)) :
    d.Within changes (run >>= f) := hrun.bind_of_ok fun _ a _ _ => hf a

theorem map (hrun : d.Within changes run) (g : α → β) : d.Within changes (g <$> run) := by
  intro s hs
  rw [map_apply]
  exact ⟨(hrun s hs).moves, fun hno => ((hrun s hs).failure hno).map g⟩

/-- A computation on the registry may register types. -/
theorem onRegistry {run : RegistryM α}
    (h : ∀ r, d.catalog.Agrees r → r.Moves d.catalog (run r).2) :
    d.Within [.register] (onRegistry run) := fun s hs =>
  ⟨.single ⟨_, List.mem_singleton_self _, .register s (h _ hs)⟩, fun _ => .ok _⟩

/-- A question to the registry has it learn. -/
theorem question {run : RegistryM α} {a : α} (h : RegistryM.Yields d.catalog run a) :
    d.Within [.learn] (DispatchM.onRegistry run) := fun s hs =>
  ⟨.single ⟨_, List.mem_singleton_self _, .learn s (h _ hs).learns⟩, fun _ => .ok _⟩

/-- So does a resolution, whose failures are the catalog's. -/
theorem onResolution {run : ResolveM α} {x : Except DispatchError α}
    (h : ResolveM.Yields d.catalog run x) (hx : NotFromHost x) :
    d.Within [.learn] (onResolution run) := by
  intro s hs
  refine ⟨.single ⟨_, List.mem_singleton_self _, .learn s (h _ hs).learns⟩, fun _ => ?_⟩
  have hpost : (DispatchM.onResolution run s).1 = x := (h _ hs).post
  rwa [hpost]

/-- Only a call of the host may fail with an error of the host. -/
theorem onHost (member : Member) (run : HostM σ α) : d.Within [.host] (onHost member run) :=
  fun s _ => ⟨.single ⟨_, List.mem_singleton_self _, .host s _⟩,
    fun hno => absurd (List.mem_singleton_self _) hno⟩

end Within

variable (d) in
/-- A computation is `first`, followed by changes of the given kinds. -/
def Follows (first : DispatchM σ β) (changes : List Change) (run : DispatchM σ α) : Prop :=
  ∃ rest : β → DispatchM σ α, run = first >>= rest ∧
    ∀ s b, (first s).1 = .ok b → d.Within changes (rest b)

namespace Follows

variable {γ : Type} {first : DispatchM σ β} {run : DispatchM σ α}

/-- All in all it makes the changes of `first` and those that follow. -/
theorem within (h : d.Follows first changes run) (hfirst : d.Within changes' first) :
    d.Within (changes' ++ changes) run := by
  obtain ⟨rest, rfl, hrest⟩ := h
  refine (hfirst.mono (List.subset_append_left ..)).bind_of_ok fun s b _ hb => ?_
  exact (hrest s b hb).mono (List.subset_append_right ..)

/-- What comes first may register even where the rest may not. -/
theorem bind {f : α → DispatchM σ γ} (h : d.Follows first changes run)
    (hf : ∀ a, d.Within changes (f a)) : d.Follows first changes (run >>= f) := by
  obtain ⟨rest, rfl, hrest⟩ := h
  exact ⟨fun b => rest b >>= f, bind_assoc .., fun s b hb => (hrest s b hb).bind hf⟩

end Follows

/-! ### Receivers -/

/-- Making a type known registers at most that type. -/
theorem within_ensureRegistered (t : TypeName) : d.Within [.register] (d.ensureRegistered t) := by
  refine .bind .get fun s => ?_
  split
  · exact .pure _
  · split
    · exact .throw rfl
    · refine .bind (.onRegistry fun r hr => ?_) fun _ => .pure _
      exact (Registry.registers_register t r hr).moves

theorem within_receiver (v : Value) (name : String) : d.Within [.register] (d.receiver v name) := by
  unfold receiver
  cases Receiver.of? v with
  | none => exact .throw rfl
  | some r => exact .bind (within_ensureRegistered r.type) fun _ => .pure r

/-- Only the receiver that a value makes is worked on. -/
theorem of?_of_receiver {v : Value} {name : String} {r : Receiver}
    (h : (d.receiver v name s).1 = .ok r) : Receiver.of? v = some r := by
  unfold receiver at h
  cases hv : Receiver.of? v with
  | none =>
    rw [hv] at h
    cases h
  | some r' =>
    rw [hv] at h
    simp only [bind_apply] at h
    cases hreg : (d.ensureRegistered r'.type s).1 with
    | error e =>
      rw [hreg] at h
      cases h
    | ok u =>
      rw [hreg] at h
      exact congrArg some (Except.ok.inj h)

/-- Making a type known changes the registry alone. -/
theorem exists_ensureRegistered_snd (hs : d.catalog.Agrees s.registry) (t : TypeName) :
    ∃ r, d.catalog.Agrees r ∧ (d.ensureRegistered t s).2 = { s with registry := r } := by
  by_cases h : s.registry.isRegistered t = true
  · exact ⟨s.registry, hs, by simp [ensureRegistered, bind_apply, h]⟩
  · by_cases himports : d.settings.requireImports = true
    · exact ⟨s.registry, hs, by simp [ensureRegistered, bind_apply, h, himports]⟩
    · refine ⟨_, hs.moves (Registry.registers_register t s.registry hs).moves, ?_⟩
      simp only [ensureRegistered, bind_apply, get_apply, h, himports]
      rfl

/-- Without the requirement of an import every type may be used. -/
theorem ensureRegistered_fst (himports : d.settings.requireImports = false) (t : TypeName) :
    (d.ensureRegistered t s).1 = .ok () := by
  by_cases h : s.registry.isRegistered t = true
  · simp [ensureRegistered, bind_apply, h]
  · simp only [ensureRegistered, bind_apply, get_apply, h, himports, if_false, Bool.false_eq_true]
    rfl

/-- The receiver of a call is found by a change of the registry alone. -/
theorem exists_receiver_snd (hs : d.catalog.Agrees s.registry) (v : Value) (name : String) :
    ∃ r, d.catalog.Agrees r ∧ (d.receiver v name s).2 = { s with registry := r } := by
  unfold receiver
  cases Receiver.of? v with
  | none => exact ⟨s.registry, hs, rfl⟩
  | some r =>
    obtain ⟨registry, hregistry, heq⟩ := exists_ensureRegistered_snd hs r.type
    refine ⟨registry, hregistry, ?_⟩
    simp only [bind_apply]
    cases (d.ensureRegistered r.type s).1 <;> exact heq

/-- Without the requirement of an import, every value that can be a receiver is one. -/
theorem receiver_fst (himports : d.settings.requireImports = false) {v : Value} {r : Receiver}
    (hr : Receiver.of? v = some r) (name : String) : (d.receiver v name s).1 = .ok r := by
  simp [receiver, hr, bind_apply, ensureRegistered_fst himports]

/-- What a resolution gives is what the catalog gives. -/
theorem onResolution_fst {run : ResolveM α} {x : Except DispatchError α}
    (h : ResolveM.Yields d.catalog run x) (hs : d.catalog.Agrees s.registry) :
    (onResolution run s).1 = x :=
  (h _ hs).post

/-- A computation on the registry never fails, and its answer is the one the catalog gives. -/
theorem onRegistry_fst {run : RegistryM α} {a : α} (h : RegistryM.Yields d.catalog run a)
    (hs : d.catalog.Agrees s.registry) : (onRegistry run s).1 = .ok a :=
  congrArg Except.ok (h _ hs).post

/-! ### Parts of operations -/

/-- Binding a call learns what its resolution asks for, and remembers what it gives. -/
theorem within_bindCall {v : Value} {r : Receiver} (hr : Receiver.of? v = some r) (name : String)
    (args : List Value) : d.Within [.learn, .remember] (d.bindCall r name args) := by
  have hresolve : ∀ recast, d.Within [.learn, .remember]
      (onResolution (Resolution.resolve d.catalog recast r name args)) := fun recast =>
    (Within.onResolution (Resolution.yields_resolve r name args)
      (d.catalog.notFromHost_resolve recast r name args)).mono (by decide)
  refine .bind .get fun s => ?_
  split
  · exact hresolve _
  · refine .bind .get fun s' => ?_
    split
    · exact .pure _
    · -- a failure is not remembered
      refine .bind_of_ok (hresolve s.recast) fun s'' b hs'' hb => ?_
      rw [onResolution_fst (Resolution.yields_resolve r name args) hs''] at hb
      exact .bind ((Within.modify fun s => .remember s hr hb).mono (by decide)) fun _ => .pure b

theorem within_targetOf (r : Receiver) (member : Member) (isStatic : Bool) :
    d.Within changes (targetOf r member isStatic : DispatchM σ (Option Value)) := by
  unfold targetOf
  split
  · exact .pure _
  · unfold instanceOf
    cases r.instance? with
    | none => exact .map (.throw rfl) _
    | some v => exact .map (.pure v) _

/-- A construction after its selection is a call on the host. -/
theorem within_constructWith (o : Overload) (args : List Value) :
    d.Within [.host] (d.constructWith o args) := .onHost _ _

theorem within_readField (r : Receiver) (f : Field) : d.Within [.host] (d.readField r f) := by
  unfold readField
  split
  · exact .onHost _ _
  · exact .bind (within_targetOf _ _ _) fun _ => .onHost _ _

/-- Carrying out a binding concerns the host alone. -/
theorem within_carryOut (r : Receiver) (binding : Binding) (args : List Value) :
    d.Within [.host] (d.carryOut r binding args) := by
  unfold carryOut
  cases binding with
  | constructor o => exact within_constructWith o args
  | nestedConstructor nested o bindsEnclosing =>
    cases bindsEnclosing with
    | false => exact within_constructWith o args
    | true =>
      simp only [if_true]
      cases r.instance? with
      | none => exact .throw rfl
      | some outer => exact within_constructWith o _
  | method o => exact .bind (within_targetOf _ _ _) fun _ => .onHost _ _
  | field f => exact within_readField r f

theorem within_lookup (t : TypeName) (name : String) :
    d.Within [.learn] (onResolution (Resolution.findField d.catalog t name)) :=
  .onResolution (Resolution.yields_findField t name) (d.catalog.notFromHost_findField t name)

/-! ### Operations

Every operation but those by a simple name first makes the type known that it works on. -/

/-- What is done on a receiver may assume that the value makes it. -/
theorem follows_receiver {v : Value} {name : String} {rest : Receiver → DispatchM σ α}
    (h : ∀ r, Receiver.of? v = some r → d.Within changes (rest r)) :
    d.Follows (d.receiver v name) changes (d.receiver v name >>= rest) :=
  ⟨rest, rfl, fun _ r hr => h r (of?_of_receiver hr)⟩

/-- A call registers its receiver at most, then learns, may enter one binding in the memo and may
act on the host. -/
theorem follows_call (v : Value) (name : String) (args : List Value) :
    d.Follows (d.receiver v name) [.learn, .remember, .host] (d.call v name args) :=
  follows_receiver fun r hr =>
    .bind ((within_bindCall hr name args).mono (by decide)) fun b =>
      (within_carryOut r b args).mono (by decide)

/-- A resolution does what a call does, short of the host. -/
theorem follows_resolve (v : Value) (name : String) (args : List Value) :
    d.Follows (d.receiver v name) [.learn, .remember] (d.resolve v name args) :=
  follows_receiver fun _ hr => within_bindCall hr name args

/-- The search for a method neither reads nor writes the memo. -/
theorem follows_findMethod (v : Value) (name : String) (args : List Value) :
    d.Follows (d.receiver v name) [.learn] (d.findMethod v name args) :=
  follows_receiver fun _ _ => .bind .get fun _ =>
    .onResolution (Resolution.yields_selectMethod _ _ _) (d.catalog.notFromHost_select _ _ _ _ _)

theorem follows_findField (v : Value) (name : String) :
    d.Follows (d.receiver v name) [.learn] (d.findField v name) :=
  follows_receiver fun r _ => within_lookup r.type name

/-- A field is looked up and then read. -/
theorem within_lookup_carryOut (r : Receiver) (name : String) :
    d.Within [.learn, .host] (do
      let f ← onResolution (Resolution.findField d.catalog r.type name)
      d.carryOut r (.field f) []) :=
  .bind ((within_lookup r.type name).mono (by decide)) fun f =>
    (within_carryOut r (.field f) []).mono (by decide)

theorem follows_getField (v : Value) (name : String) :
    d.Follows (d.receiver v name) [.learn, .host] (d.getField v name) :=
  follows_receiver fun r _ => within_lookup_carryOut r name

theorem follows_getFieldOrNested (v : Value) (name : String) :
    d.Follows (d.receiver v name) [.learn, .host] (d.getFieldOrNested v name) := by
  refine follows_receiver fun r _ => ?_
  have hnested := Registry.yields_nestedNamed? (c := d.catalog) r.type name
  refine .bind ((Within.question hnested).mono (by decide)) fun nested => ?_
  cases nested with
  | some nested => exact .pure _
  | none => exact within_lookup_carryOut r name

/-- An assignment learns for the score of the value and ends with the host. -/
theorem follows_setField (v : Value) (name : String) (value : Value) :
    d.Follows (d.receiver v name) [.learn, .host] (d.setField v name value) := by
  refine follows_receiver fun r _ => ?_
  refine .bind ((within_lookup r.type name).mono (by decide)) fun f => .bind .get fun s => ?_
  have hscore : RegistryM.Yields d.catalog
      (Registry.scoreArgument? d.catalog s.recast value f.decl.type) _ :=
    Registry.yields_scoreArgument? value f.decl.type
  refine .bind ((Within.question hscore).mono (by decide)) fun score => ?_
  split
  · exact .throw rfl
  · exact .bind (within_targetOf _ _ _) fun _ => (Within.onHost _ _).mono (by decide)

theorem follows_findConstructor (t : TypeName) (args : List Value) :
    d.Follows (d.ensureRegistered t) [.learn] (d.findConstructor t args) :=
  ⟨_, rfl, fun _ _ _ => .bind .get fun _ =>
    .onResolution (Resolution.yields_selectConstructor _ _)
      (d.catalog.notFromHost_select _ _ _ _ _)⟩

/-- A construction never touches the memo. -/
theorem follows_construct (t : TypeName) (args : List Value) :
    d.Follows (d.ensureRegistered t) [.learn, .host] (d.construct t args) := by
  obtain ⟨rest, hrun, hrest⟩ := follows_findConstructor (d := d) t args
  have hfound : d.Follows (d.ensureRegistered t) [.learn, .host] (d.findConstructor t args) :=
    ⟨rest, hrun, fun s u hu => (hrest s u hu).mono (by decide)⟩
  exact hfound.bind fun o => (within_carryOut _ (.constructor o) args).mono (by decide)

theorem within_resolve (v : Value) (name : String) (args : List Value) :
    d.Within [.register, .learn, .remember] (d.resolve v name args) :=
  (follows_resolve v name args).within (within_receiver v name)

theorem within_findField (v : Value) (name : String) :
    d.Within [.register, .learn] (d.findField v name) :=
  (follows_findField v name).within (within_receiver v name)

theorem within_findConstructor (t : TypeName) (args : List Value) :
    d.Within [.register, .learn] (d.findConstructor t args) :=
  (follows_findConstructor t args).within (within_ensureRegistered t)

/-- A construction by a simple name is one of the type that the name points to. -/
theorem within_constructNamed (simple : String) (args : List Value) :
    d.Within [.register, .learn, .host] (d.constructNamed simple args) := by
  refine .bind .get fun s => ?_
  dsimp only
  cases (s.registry.named? simple).filter s.registry.isRegistered with
  | some t => exact (follows_construct t args).within (within_ensureRegistered t)
  | none => exact .throw rfl

/-- Whether it finds anything or not, an import changes the registry alone. -/
theorem within_importText (text : String) : d.Within [.register] (d.importText text) := by
  unfold importText
  cases d.scanner with
  | none => exact .throw rfl
  | some scanner =>
    refine .bind (.onRegistry fun r hr => Registry.moves_importText hr scanner text) ?_
    intro outcome
    cases outcome with
    | ok imported => exact .pure _
    | error cause => exact .throw rfl

/-! ### Sessions -/

/-- The registry moves over its catalog under each of its own steps. -/
theorem moves_perform {c : Catalog} (step : RegistryStep) {r : Registry} (hr : c.Agrees r) :
    r.Moves c (step.perform c r).2 := by
  obtain ⟨answer, henrolls⟩ := step.exists_enrolls hr
  exact henrolls.moves

end Dispatcher

/-- The kinds of change that a step makes. -/
def Step.changes : Step → List Dispatcher.Change
  | .call .. | .run (.call ..) => [.register, .learn, .remember, .host]
  | .resolve .. => [.register, .learn, .remember]
  | .findMethod .. | .findConstructor .. | .findField .. => [.register, .learn]
  | .construct .. | .constructNamed .. | .getField .. | .getFieldOrNested .. | .setField ..
  | .run _ => [.register, .learn, .host]
  | .importText _ | .registry _ => [.register]
  | .setRecast _ => [.recast]

namespace Dispatcher

open DispatchM Fallible

variable {σ : Type} {d : Dispatcher σ} {s s' : State σ}

/-- A step makes the changes of its kinds alone. -/
theorem within_perform (step : Step) : d.Within step.changes (step.perform d) := by
  have hreceiver : ∀ {γ δ : Type} {run : DispatchM σ γ} {changes} (v name) (f : γ → δ),
      d.Follows (d.receiver v name) changes run →
      d.Within ([.register] ++ changes) (f <$> run) := fun v name f h =>
    (h.within (within_receiver v name)).map f
  cases step with
  | call v name args => exact hreceiver v name _ (follows_call v name args)
  | resolve v name args => exact (within_resolve v name args).map _
  | findMethod v name args => exact hreceiver v name _ (follows_findMethod v name args)
  | findConstructor t args => exact (within_findConstructor t args).map _
  | construct t args =>
    exact ((follows_construct t args).within (within_ensureRegistered t)).map _
  | constructNamed simple args => exact (within_constructNamed simple args).map _
  | findField v name => exact (within_findField v name).map _
  | getField v name => exact hreceiver v name _ (follows_getField v name)
  | getFieldOrNested v name => exact hreceiver v name _ (follows_getFieldOrNested v name)
  | setField v name value => exact hreceiver v name _ (follows_setField v name value)
  | run request =>
    cases request with
    | call v name args => exact hreceiver v name _ (follows_call v name args)
    | construct simple args => exact (within_constructNamed simple args).map _
    | getField v name => exact hreceiver v name _ (follows_getField v name)
    | getFieldOrNested v name => exact hreceiver v name _ (follows_getFieldOrNested v name)
    | setField v name value =>
      exact hreceiver v name _ ((follows_setField v name value).bind fun _ => .pure _)
  | importText text => exact (within_importText text).map _
  | setRecast on => exact (Within.modify fun s => .recast s on).map _
  | registry step => exact (Within.onRegistry fun _ hr => moves_perform step hr).map _

/-- A step of a session is made of moves. -/
theorem moves_answer (step : Step) (hs : d.catalog.Agrees s.registry) :
    d.Moves step.changes s (d.answer step s).2 :=
  (within_perform step s hs).moves

/-- And so is a run. -/
theorem moves_after (steps : List Step) (hs : d.catalog.Agrees s.registry) :
    d.Moves (steps.flatMap Step.changes) s (d.after steps s) := by
  induction steps generalizing s with
  | nil => exact .refl
  | cons step rest ih =>
    have hstep := moves_answer step hs
    have hrest := ih (hstep.agrees hs)
    exact (hstep.mono (List.subset_append_left ..)).trans
      (hrest.mono (List.subset_append_right ..))

/-- The last step of a run is answered in the state that the others leave. -/
theorem after_concat (steps : List Step) (step : Step) (s : State σ) :
    d.after (steps ++ [step]) s = (d.answer step (d.after steps s)).2 := by
  simp [after, List.foldl_append]

variable (d) in
/-- A state that some session reaches. -/
def Reached (s : State σ) : Prop := ∃ host steps, s = d.after steps (d.start host)

/-- A state that is reached comes from a starting state by changes. -/
theorem Reached.moves (h : d.Reached s) : ∃ host changes, d.Moves changes (d.start host) s := by
  obtain ⟨host, steps, rfl⟩ := h
  exact ⟨host, _, moves_after steps (Catalog.agrees_empty _)⟩

/-- Over a whole run the registry moves from the empty one over a single catalog. -/
theorem Reached.registry_moves (h : d.Reached s) : Registry.Moves d.catalog {} s.registry := by
  obtain ⟨host, changes, hmoves⟩ := h.moves
  exact hmoves.registry

/-- In every reached state the registry repeats what the catalog says. -/
theorem Reached.agrees (h : d.Reached s) : d.catalog.Agrees s.registry :=
  (Catalog.agrees_empty _).moves h.registry_moves

/-- A question to the registry is answered as the catalog would. -/
theorem Reached.answer_eq {run : RegistryM α} {a : α} (h : d.Reached s)
    (hrun : RegistryM.Yields d.catalog run a) : (run s.registry).1 = a :=
  (hrun s.registry h.agrees).post

end Dispatcher

/-- A host that has nothing to do and answers null. -/
def Host.idle : Host Unit where
  invoke _ _ _ := pure .null
  construct _ _ := pure .null
  readField _ _ := pure .null
  constant _ _ := pure .null

end Dispatch
