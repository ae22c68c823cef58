import Dispatch.Proofs.Dispatcher.Selection
import Dispatch.Proofs.Resolution.History

/-!
# Where operations come from

A call is looked up on its scope: the type of the receiver or, if the name is that of a nested
type, this type. What it is bound to is among the members of the scope and takes as many arguments
as there are, and a binding that is remembered was once resolved for a call with the same scope and
as many arguments.

* `Dispatcher.Selects.foundOn`: the operation that a step selects is about a member of the type on
  which the step looks a name up, and has as many arguments as parameters.
-/

namespace Dispatch

/-! ### Members of a scope -/

/-- A binding is to a member of `t` that takes `n` arguments, an enclosing instance not counted. -/
def Binding.FoundOn (c : Catalog) (t : TypeName) (n : Nat) : Binding → Prop
  | constructor o => o ∈ c.constructors t ∧ o.params.length = n
  | nestedConstructor _ o bindsEnclosing =>
    o ∈ c.constructors t ∧ o.params.length = if bindsEnclosing then n + 1 else n
  | method o => (∃ name, o ∈ c.methods t name) ∧ o.params.length = n
  | field f => (∃ name, c.field? t name = some f) ∧ n = 0

/-- An operation is about a member of `t`, and has as many arguments as parameters. -/
def Operation.FoundOn (c : Catalog) (t : TypeName) : Operation → Prop
  | invoke _ o args => (∃ name, o ∈ c.methods t name) ∧ o.params.length = args.length
  | construct o args => o ∈ c.constructors t ∧ o.params.length = args.length
  | readField _ f | writeField _ f _ => ∃ name, c.field? t name = some f
  | constant f => (∃ name, c.field? t name = some f) ∧ f.decl.isConstant = true

/-- An operation passes one argument for each parameter. -/
theorem Operation.FoundOn.length_eq {c : Catalog} {t : TypeName} {op : Operation}
    (h : op.FoundOn c t) : op.params.length = op.args.length := by
  cases op with
  | invoke | construct => exact h.2
  | readField | constant | writeField => rfl

/-- What a binding is about, its operation is about. -/
theorem Binding.FoundOn.operation {c : Catalog} {t : TypeName} {b : Binding} {r : Receiver}
    {args : List Value} {op : Operation} (h : b.FoundOn c t args.length)
    (hop : b.operation r args = .ok op) : op.FoundOn c t := by
  cases Binding.becomes_of_operation hop with
  | constructor | nested | enclosed | method => exact h
  | constant f hconstant => exact ⟨h.1, hconstant⟩
  | field => exact h.1

namespace Catalog

variable {c : Catalog} {recast : Bool}

variable (c) in
/-- The type on whose members a name is looked up that is called on `t`. -/
def scope (t : TypeName) (name : String) : TypeName :=
  if (c.describe t).map (·.simple) = some name then t
  else ((c.describe t).bind (·.nestedNamed? name)).elim t (·.name)

/-- The best overload is one of those scored, with the score it has there. -/
theorem mem_of_firstBest? {l : List (Overload × Option Nat)} {best : Overload × Nat}
    (h : firstBest? l = some best) : (best.1, some best.2) ∈ l := by
  fun_induction firstBest? l <;> grind

/-- What is selected is a candidate, and takes as many arguments as there are. -/
theorem of_select_eq_ok {t : TypeName} {name : String} {args : List Value} {os : List Overload}
    {o : Overload} (h : c.select recast t name args os = .ok o) :
    o ∈ os ∧ o.params.length = args.length := by
  obtain ⟨best, hbest, rfl⟩ := Option.map_eq_some_iff.mp (select_eq_ok_iff.mp h)
  obtain ⟨o, ho, heq⟩ := List.mem_map.mp (mem_of_firstBest? hbest)
  obtain ⟨rfl, hscore⟩ := Prod.mk.inj heq
  refine ⟨ho, ?_⟩
  by_contra hlength
  rw [score?, if_pos hlength] at hscore
  cases hscore

/-- The name of a nested type is bound to a constructor of that type. -/
theorem foundOn_of_resolveNested {r : Receiver} {nested : NestedType} {args : List Value}
    {b : Binding} (h : c.resolveNested recast r nested args = .ok b) :
    b.FoundOn c nested.name args.length := by
  unfold resolveNested at h
  split at h
  · obtain ⟨o, ho, rfl⟩ := exists_of_map_eq_ok h
    exact of_select_eq_ok ho
  · split at h
    · cases h
    · obtain ⟨o, ho, rfl⟩ := exists_of_map_eq_ok h
      exact of_select_eq_ok ho

/-- A call is bound to a member of its scope. -/
theorem foundOn_of_resolve {r : Receiver} {name : String} {args : List Value} {b : Binding}
    (h : c.resolve recast r name args = .ok b) :
    b.FoundOn c (c.scope r.type name) args.length := by
  unfold resolve at h
  unfold scope
  split at h
  · next hsimple =>
    obtain ⟨o, ho, rfl⟩ := exists_of_map_eq_ok h
    rw [if_pos hsimple]
    exact of_select_eq_ok ho
  · next hsimple =>
    rw [if_neg hsimple]
    cases hnested : (c.describe r.type).bind (·.nestedNamed? name) with
    | some nested =>
      rw [hnested] at h
      exact foundOn_of_resolveNested h
    | none =>
      rw [hnested] at h
      obtain ⟨o, ho, rfl⟩ := exists_of_map_eq_ok h
      obtain ⟨hmem, hlength⟩ := of_select_eq_ok ho
      exact ⟨⟨name, hmem⟩, hlength⟩

end Catalog

/-! ### Where bindings come from -/

/-- Some call of the given shape resolves to a binding. -/
def Catalog.Resolves (c : Catalog) (shape : CallShape) (b : Binding) : Prop :=
  ∃ recast v r name args, Receiver.of? v = some r ∧ CallShape.of recast r name args = shape ∧
    c.resolve recast r name args = .ok b

namespace Dispatcher

open DispatchM Fallible

variable {σ : Type} {d : Dispatcher σ} {s s' : State σ}

/-- Whatever a memo holds was resolved for some call of the shape that it is held under. -/
theorem Moves.resolves {changes : List Change} (h : d.Moves changes s s')
    (hs : ∀ {shape b}, s.memo.find? shape = some b → d.catalog.Resolves shape b)
    {shape : CallShape} {b : Binding} (hb : s'.memo.find? shape = some b) :
    d.catalog.Resolves shape b := by
  induction h generalizing shape b with
  | refl => exact hs hb
  | tail _ hstep ih =>
    obtain ⟨_, _, hmove⟩ := hstep
    cases hmove with
    | learn | register | recast | host => exact ih hb
    | remember _ hr hresolve =>
      rw [Table.find?_insert] at hb
      split at hb
      · next hshape =>
        obtain rfl := Option.some.inj hb
        exact ⟨_, _, _, _, _, hr, hshape.symm, hresolve⟩
      · exact ih hb

/-- Every binding in the memo was given by a resolution of its shape. -/
theorem Reached.memo_resolves (h : d.Reached s) {shape : CallShape} {b : Binding}
    (hb : s.memo.find? shape = some b) : d.catalog.Resolves shape b := by
  obtain ⟨host, changes, hmoves⟩ := h.moves
  exact hmoves.resolves (fun hfind => by cases hfind) hb

/-- Remembered or not, a binding was resolved for a call of the shape of this one. -/
theorem resolves_of_bindCall (hs : d.catalog.Agrees s.registry)
    (hmemo : ∀ {shape b}, s.memo.find? shape = some b → d.catalog.Resolves shape b) {v : Value}
    {r : Receiver} (hr : Receiver.of? v = some r) {name : String} {args : List Value} {b : Binding}
    (hb : (d.bindCall r name args s).1 = .ok b) :
    d.catalog.Resolves (.of s.recast r name args) b := by
  have hfresh : (onResolution (Resolution.resolve d.catalog s.recast r name args) s).1 =
      d.catalog.resolve s.recast r name args :=
    onResolution_fst (Resolution.yields_resolve r name args) hs
  have hresolves : d.catalog.resolve s.recast r name args = .ok b →
      d.catalog.Resolves (.of s.recast r name args) b := fun h => ⟨_, _, _, _, _, hr, rfl, h⟩
  unfold bindCall at hb
  cases hmemoize : d.settings.memoize with
  | false =>
    have hb : (onResolution (Resolution.resolve d.catalog s.recast r name args) s).1 = .ok b := by
      simpa [hmemoize, bind_apply] using hb
    exact hresolves (hfresh.symm.trans hb)
  | true =>
    simp only [hmemoize, bind_apply, get_apply, Bool.not_true, Bool.false_eq_true, if_false] at hb
    cases hfind : s.memo.find? (CallShape.of s.recast r name args) with
    | some b' =>
      rw [hfind] at hb
      obtain rfl := Except.ok.inj hb
      exact hmemo hfind
    | none =>
      simp only [hfind, bind_apply, hfresh] at hb
      cases hresolve : d.catalog.resolve s.recast r name args with
      | error e =>
        rw [hresolve] at hb
        cases hb
      | ok b' =>
        simp only [hresolve, modify_apply, pure_apply] at hb
        obtain rfl := Except.ok.inj hb
        exact hresolves hresolve

/-- What a call is bound to, by the memo or anew, a resolution of its shape gives. -/
theorem Reached.resolves (h : d.Reached s) {v : Value} {r : Receiver} (hr : Receiver.of? v = some r)
    {name : String} {args : List Value} {b : Binding}
    (hb : (d.resolve v name args s).1 = .ok b) :
    d.catalog.Resolves (.of s.recast r name args) b := by
  obtain ⟨registry, hregistry, hstate⟩ := exists_receiver_snd h.agrees v name
  rw [resolve, bind_apply] at hb
  cases hreceiver : (d.receiver v name s).1 with
  | error e =>
    rw [hreceiver] at hb
    cases hb
  | ok r' =>
    obtain rfl := Option.some.inj (hr.symm.trans (of?_of_receiver hreceiver))
    rw [hreceiver, hstate] at hb
    exact resolves_of_bindCall (s := { s with registry }) hregistry h.memo_resolves hr hb

end Dispatcher

namespace Catalog

/-- All that a shape says of a call is enough for what is found. -/
theorem Resolves.foundOn {c : Catalog} {recast : Bool} {r : Receiver} {name : String}
    {args : List Value} {b : Binding} (h : c.Resolves (.of recast r name args) b) :
    b.FoundOn c (c.scope r.type name) args.length := by
  obtain ⟨recast', v, q, name', args', -, hshape, hresolve⟩ := h
  obtain ⟨htype, -, hname, hargs⟩ := CallShape.mk.inj hshape
  have hlength : args'.length = args.length := by simpa using congrArg List.length hargs
  rw [← htype, ← hname, ← hlength]
  exact foundOn_of_resolve hresolve

end Catalog

namespace Dispatcher

open Fallible

variable {σ : Type} {d : Dispatcher σ} {s : State σ}

variable (d s) in
/-- The type on which a step that may call the host looks a name up. -/
def scope? : Step → Option TypeName
  | .call v name _ | .run (.call v name _) =>
    (Receiver.of? v).map fun r => d.catalog.scope r.type name
  | .construct t _ => some t
  | .constructNamed simple _ | .run (.construct simple _) => s.registry.named? simple
  | .getField v _ | .getFieldOrNested v _ | .setField v _ _
  | .run (.getField v _) | .run (.getFieldOrNested v _) | .run (.setField v _ _) =>
    (Receiver.of? v).map (·.type)
  | _ => none

/-- The constructor that is found for a type is one of its own. -/
theorem foundOn_of_findConstructor (hs : d.catalog.Agrees s.registry) {t : TypeName}
    {args : List Value} {o : Overload} (ho : (d.findConstructor t args s).1 = .ok o) :
    (Operation.construct o args).FoundOn d.catalog t := by
  rw [findConstructor, bind_apply] at ho
  cases hregistered : (d.ensureRegistered t s).1 with
  | error e =>
    rw [hregistered] at ho
    cases ho
  | ok _ =>
    rw [hregistered] at ho
    have hagrees := (within_ensureRegistered t s hs).agrees hs
    simp only [bind_apply, get_apply] at ho
    rw [onResolution_fst (Resolution.yields_selectConstructor t args) hagrees] at ho
    exact Catalog.of_select_eq_ok ho

/-- The field that is found for a receiver is one that its type offers. -/
theorem field?_of_findField (hs : d.catalog.Agrees s.registry) {v : Value} {r : Receiver}
    (hr : Receiver.of? v = some r) {name : String} {f : Field}
    (hf : (d.findField v name s).1 = .ok f) : d.catalog.field? r.type name = some f := by
  cases hreceiver : (d.receiver v name s).1 with
  | error e =>
    rw [findField, bind_apply, hreceiver] at hf
    cases hf
  | ok r' =>
    obtain rfl := Option.some.inj (hr.symm.trans (of?_of_receiver hreceiver))
    rw [findField_fst hs hreceiver, Catalog.findField] at hf
    split at hf
    · next hfield =>
      obtain rfl := Except.ok.inj hf
      exact hfield
    · cases hf

/-- The operation that a step selects is found on its scope. -/
theorem Selects.foundOn (hs : d.Reached s) {step : Step} {op : Operation}
    (h : d.Selects s step op) : ∃ t, d.scope? s step = some t ∧ op.FoundOn d.catalog t := by
  have hfield : ∀ {v r name f op}, Receiver.of? v = some r → (d.findField v name s).1 = .ok f →
      (Binding.field f).operation r [] = .ok op → op.FoundOn d.catalog r.type := by
    intro v r name f op hr hf hop
    have hfound : (Binding.field f).FoundOn d.catalog r.type ([] : List Value).length :=
      ⟨⟨name, field?_of_findField hs.agrees hr hf⟩, rfl⟩
    exact hfound.operation hop
  induction h with
  | @call v r name args b op hr hb hop =>
    exact ⟨_, by simp [scope?, hr], (hs.resolves hr hb).foundOn.operation hop⟩
  | construct ho => exact ⟨_, rfl, foundOn_of_findConstructor hs.agrees ho⟩
  | constructNamed ht ho => exact ⟨_, ht, foundOn_of_findConstructor hs.agrees ho⟩
  | getField hr hf hop | getFieldOrNested hr hf hop =>
    exact ⟨_, by simp [scope?, hr], hfield hr hf hop⟩
  | setField hr hf _ _ =>
    exact ⟨_, by simp [scope?, hr], _, field?_of_findField hs.agrees hr hf⟩
  | @run request op _ ih =>
    obtain ⟨t, ht, hop⟩ := ih
    refine ⟨t, ?_, hop⟩
    cases request <;> exact ht

end Dispatcher

end Dispatch
