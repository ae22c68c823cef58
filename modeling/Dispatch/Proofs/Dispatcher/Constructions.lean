import Dispatch.Proofs.Dispatcher.Memory
import Dispatch.Proofs.Registry.Collisions
import Dispatch.Proofs.Resolution.Shape

/-!
# Ways of constructing

An instance of an imported type can be constructed by the type, by its simple name, or by calling
the simple name on the type or on an instance. A call goes through the memo and the other ways do
not, but what is remembered spares no question that would still be asked; so the ways cannot be told
apart but by the memo.

* `Dispatcher.bindCall_simpleName`: how a call of the simple name is bound, from the memo or not.
* `Dispatcher.constructions_agree`: all ways of constructing give the same.
-/

namespace Dispatch

/-! ### Calling a type by its simple name -/

namespace Resolution

/-- A type that the registry knows, called by its own simple name, has a constructor selected. -/
theorem resolve_simpleName {c : Catalog} (recast : Bool) {r : Receiver} {name : String}
    {reg : Registry} (hreg : c.Agrees reg) (hknows : reg.Knows r.type)
    (hname : (c.describe r.type).map (·.simple) = some name) (args : List Value) :
    resolve c recast r name args reg =
      ((selectConstructor c recast r.type args reg).1.map .constructor,
        (selectConstructor c recast r.type args reg).2) := by
  have hasked : Registry.simpleNameOf? c r.type reg = (some name, reg) := by
    refine Prod.ext ?_ (Registry.learn_of_answered (.inl hknows))
    rw [← hname]
    exact (Registry.yields_simpleNameOf? r.type reg hreg).post
  have hlift : (liftM (Registry.simpleNameOf? c r.type) : ResolveM _) reg =
      (.ok (some name), reg) := by
    have happly : (liftM (Registry.simpleNameOf? c r.type) : ResolveM _) reg =
        (.ok (Registry.simpleNameOf? c r.type reg).1,
          (Registry.simpleNameOf? c r.type reg).2) := rfl
    rw [happly, hasked]
  rw [resolve, Fallible.bind_apply, hlift]
  dsimp only
  rw [if_pos rfl, Fallible.bind_apply]
  cases (selectConstructor c recast r.type args reg).1 <;> rfl

end Resolution

/-! ### Constructing -/

namespace Dispatcher

open DispatchM Fallible

variable {σ : Type} {d : Dispatcher σ} {s : State σ}
variable {simple : String} {t : TypeName} {r : Receiver}

/-- Calling the simple name of a type on the type or on an instance binds the constructor that is
selected, from the memo or not. -/
theorem bindCall_simpleName (hs : d.Reached s) (hknows : s.registry.Knows r.type)
    (hname : (d.catalog.describe r.type).map (·.simple) = some simple) (args : List Value) :
    let selected := Resolution.selectConstructor d.catalog s.recast r.type args s.registry
    ∃ memo, d.bindCall r simple args s =
      (selected.1.map .constructor, { s with registry := selected.2, memo := memo }) := by
  intro selected
  have hresolve := Resolution.resolve_simpleName s.recast hs.agrees hknows hname args
  rcases bindCall_cases d r simple args s with
    ⟨b, hfind, hbind⟩ | ⟨result, reg, memo, hresult, hbind, -⟩
  · -- what is remembered was resolved for arguments of the same shapes
    obtain ⟨recast, r', name, args', hshape, hrecalled⟩ := hs.recalls _ _ hfind
    obtain ⟨htype, -, rfl, hargs⟩ := CallShape.mk.inj hshape
    have hsame : selected =
        Resolution.selectConstructor d.catalog recast r'.type args' s.registry := by
      rw [← htype, ← Resolution.selectConstructor_congr hargs r.type]
    have hother := Resolution.resolve_simpleName recast hs.agrees (htype ▸ hknows)
      (htype ▸ hname) args'
    rw [hrecalled, ← hsame] at hother
    obtain ⟨hb, hreg⟩ := Prod.mk.inj hother
    refine ⟨s.memo, ?_⟩
    rw [hbind, ← hb, ← hreg]
  · rw [hresolve] at hresult
    obtain ⟨rfl, rfl⟩ := Prod.mk.inj hresult
    exact ⟨memo, hbind⟩

theorem construct_of_isRegistered (ht : s.registry.isRegistered t = true) (args : List Value) :
    let selected := Resolution.selectConstructor d.catalog s.recast t args s.registry
    d.construct t args s =
      match selected.1 with
      | .ok o => d.constructWith o args { s with registry := selected.2 }
      | .error e => (.error e, { s with registry := selected.2 }) := by
  intro selected
  have hregistered : d.ensureRegistered t s = (.ok (), s) := by
    simp [ensureRegistered, bind_apply, ht]
  have hfind : d.findConstructor t args s = (selected.1, { s with registry := selected.2 }) := by
    rw [findConstructor, bind_apply, hregistered]
    rfl
  rw [construct, bind_apply, hfind]
  cases selected.1 <;> rfl

/-- In every state of a session, an instance of a type that a simple name points to is constructed
in the same way by the type, by the name, by a request, and by calling the name on the type or on
any of its instances: with the same outcome, the same effect on the host and the same registry
afterwards. Only what is remembered may differ. -/
theorem constructions_agree (hs : d.Reached s) (hnamed : s.registry.named? simple = some t)
    (args : List Value) :
    d.constructNamed simple args s = d.construct t args s ∧
      d.run (.construct simple args) s = d.construct t args s ∧
      ∀ v r, Receiver.of? v = some r → r.type = t →
        (d.call v simple args s).1 = (d.construct t args s).1 ∧
          (d.call v simple args s).2 =
            { (d.construct t args s).2 with memo := (d.call v simple args s).2.memo } := by
  have hnamedEq := constructNamed_eq_construct hs hnamed args
  refine ⟨hnamedEq, hnamedEq, ?_⟩
  rintro v r hr rfl
  have hregistered := hs.isRegistered_of_named? hnamed
  have hname : (d.catalog.describe r.type).map (·.simple) = some simple := by
    rw [← hs.simpleNameOf?_of_named? hnamed, hs.answer_eq (Registry.yields_simpleNameOf? r.type)]
  obtain ⟨memo, hbind⟩ := bindCall_simpleName hs
    (hs.registry_moves.knows_of_isRegistered hregistered) hname args
  have hreceiver : d.receiver v simple s = (.ok r, s) := by
    simp [receiver, hr, bind_apply, ensureRegistered, hregistered]
  have hcall : d.call v simple args s =
      ((d.construct r.type args s).1, { (d.construct r.type args s).2 with memo }) := by
    rw [construct_of_isRegistered hregistered, call, bind_apply, hreceiver]
    dsimp only
    rw [bind_apply, hbind]
    cases (Resolution.selectConstructor d.catalog s.recast r.type args s.registry).1 <;> rfl
  rw [hcall]
  exact ⟨rfl, rfl⟩

/-- The state after a node has been constructed by a call on its type. -/
def grown : State (Unit × List HostCall) :=
  naming.after [.importText "a.Node", .call (.type ⟨"a.Node"⟩) "Node" []] (naming.start ((), []))

/-- A node is constructed on its type, where the binding is remembered, and on a node, where it is
resolved. -/
theorem constructions_agree_nodes :
    grown.registry.named? "Node" = some ⟨"a.Node"⟩ ∧
      (grown.memo.find? (CallShape.of true (.static ⟨"a.Node"⟩) "Node" [])).isSome = true ∧
      naming.constructNamed "Node" [] grown = naming.construct ⟨"a.Node"⟩ [] grown ∧
      (naming.call (.type ⟨"a.Node"⟩) "Node" [] grown).1 =
        (naming.construct ⟨"a.Node"⟩ [] grown).1 ∧
      (naming.call (.object ⟨⟨"a.Node"⟩, 1⟩) "Node" [] grown).1 =
        (naming.construct ⟨"a.Node"⟩ [] grown).1 := by
  have hs : naming.Reached grown := ⟨((), []), _, rfl⟩
  have hnamed : grown.registry.named? "Node" = some ⟨"a.Node"⟩ := by decide +kernel
  have hremembered :
      (grown.memo.find? (CallShape.of true (.static ⟨"a.Node"⟩) "Node" [])).isSome = true := by
    decide +kernel
  obtain ⟨hconstruct, -, hcall⟩ := constructions_agree hs hnamed []
  exact ⟨hnamed, hremembered, hconstruct, (hcall (.type _) _ rfl rfl).1,
    (hcall (.object _) _ rfl rfl).1⟩

end Dispatcher

end Dispatch
