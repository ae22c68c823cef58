import Dispatch.Proofs.Dispatcher.Finding
import Dispatch.Proofs.Hierarchy.Visits
import Dispatch.Proofs.Members.Kept

/-!
# Exact overloads

A method whose parameters are the types of the arguments, position by position, is found before all
others. Of one list of parameters a type has one method, so that no other reaches the score of six
for each argument, and it does not matter where the others are declared.

* `Catalog.score?_lt_of_mem_methods`: the methods beside an exact one.
* `Dispatcher.exact_method_found`: the answer of a search, in every state of a session.
-/

namespace Dispatch

namespace Catalog

variable {c : Catalog} {recast : Bool} {t : TypeName} {info : TypeInfo} {name : String}
  {args : List Value} {o p : Overload}

/-- Beside a method that is exact no other is. -/
theorem score?_lt_of_mem_methods (ht : c.describe t = some info) (hpublic : info.isPublic = true)
    (ho : o ∈ c.methods t name) (hargs : args.map Value.type? = o.params.map some)
    (hp : p ∈ c.methods t name) (hpo : p ≠ o) {m : Nat} (hm : c.score? recast args p = some m) :
    args ≠ [] ∧ m < 6 * args.length := by
  have hne : args.map Value.type? ≠ p.params.map some := by
    intro heq
    have hsome : p.params.map some = o.params.map some := heq.symm.trans hargs
    have hparams : p.params = o.params :=
      (List.map_inj_right fun _ _ => Option.some.inj).mp hsome
    exact hpo (eq_of_mem_methods ht hpublic hp ho hparams)
  exact score?_lt_of_ne hne hm

/-- An overload that matches exactly is the first of highest score, because no other one of its
signature is offered. -/
theorem isFirstBest_exact (ht : c.describe t = some info) (hpublic : info.isPublic = true)
    (ho : o ∈ c.methods t name) (hargs : args.map Value.type? = o.params.map some) :
    IsFirstBest (c.score? recast args) (c.methods t name) o
      (if args = [] then 1 else 6 * args.length) := by
  refine .of_lt ho (score?_exact hargs) fun p hp hpo m hm => ?_
  obtain ⟨hsome, hlt⟩ := score?_lt_of_mem_methods ht hpublic ho hargs hp hpo hm
  rwa [if_neg hsome]

end Catalog

namespace Dispatcher

variable {σ : Type} {d : Dispatcher σ} {s : State σ}

/-- Where nothing has to be imported, let a public type inherit a public method of the given name
whose parameters are the types of the arguments, so that none of these is null. Then a method with
these parameters is found, which belongs to the first type on the visit that declares it, in every
state of a session and whatever else goes by the name. If there are arguments it scores six for
each, however decimals are ranked, and the other methods of the name score less or are rejected. -/
theorem exact_method_found (hs : d.Reached s) (himports : d.settings.requireImports = false)
    {v : Value} {r : Receiver} (hr : Receiver.of? v = some r) {info : TypeInfo}
    (ht : d.catalog.describe r.type = some info) (hpublic : info.isPublic = true)
    {visited : List TypeName} (hvisited : d.catalog.Visits r.type visited) {name : String}
    {params : List Ty} {args : List Value} (hargs : args.map Value.type? = params.map some)
    {u : TypeName} (hu : u ∈ visited) (hdecl : d.catalog.DeclaresMethod u name params) :
    let found := (Registry.methods d.catalog r.type name s.registry).1
    let score := fun recast o => (Registry.score? d.catalog recast args o s.registry).1
    ∃ o before after, (d.findMethod v name args s).1 = .ok o ∧ o ∈ found ∧ o.params = params ∧
      (visited = before ++ o.owner :: after ∧ d.catalog.DeclaresMethod o.owner name params ∧
        ∀ w ∈ before, ¬ d.catalog.DeclaresMethod w name params) ∧
      (args ≠ [] → ∀ recast, score recast o = some (6 * args.length) ∧
        ∀ p ∈ found, p ≠ o → ∀ m, score recast p = some m → m ≤ 6 * args.length - 1) := by
  intro found score
  have hfound : found = d.catalog.methods r.type name :=
    hs.answer_eq (Registry.yields_methods r.type name)
  have hscore : ∀ recast o, score recast o = d.catalog.score? recast args o := fun recast o =>
    hs.answer_eq (Registry.yields_score? args o)
  obtain rfl := Catalog.visits_iff.mp hvisited
  obtain ⟨o, ho, rfl⟩ := (Catalog.exists_method_iff ht hpublic).mpr ⟨u, hu, hdecl⟩
  obtain ⟨before, after, hsplit, howner, hbefore⟩ := Catalog.owner_of_mem_methods ht hpublic ho
  refine ⟨o, before, after, ?_, hfound ▸ ho, rfl, ⟨hsplit, howner, hbefore⟩, ?_⟩
  · have hadmits : d.admits s r.type = true := by simp [admits, himports]
    have hanswer : (d.findMethod v name args s).1 =
        d.catalog.selectMethod s.recast r.type name args := by
      rw [findMethod_fst hs.agrees, hr]
      exact if_pos hadmits
    have hfirst :
        IsFirstBest (d.catalog.score? s.recast args) (d.catalog.methods r.type name) o _ :=
      Catalog.isFirstBest_exact ht hpublic ho hargs
    rw [hanswer]
    exact (Catalog.isFound_select.ok_iff o).mpr ⟨_, hfirst⟩
  · intro hsome recast
    rw [hscore, Catalog.score?_exact hargs, if_neg hsome]
    refine ⟨rfl, fun p hp hpo m hm => ?_⟩
    rw [hscore] at hm
    have hlt := (Catalog.score?_lt_of_mem_methods ht hpublic ho hargs (hfound ▸ hp) hpo hm).2
    exact Nat.le_sub_one_of_lt hlt

/-- A printer that prints everything and numbers more closely, and that inherits from devices and
from what is readable how texts are printed. -/
def printer : Catalog := .ofTable ⟨[
  (⟨"Printer"⟩, ⟨{ TypeInfo.topLevel ⟨"Printer"⟩ with
      superclass := some ⟨"Device"⟩, interfaces := [⟨"Readable"⟩] },
    some { methods := [{ name := "print", params := [.object], target := 1 },
                       { name := "print", params := [.raw .int], target := 2 }] }⟩),
  (⟨"Device"⟩, ⟨.topLevel ⟨"Device"⟩,
    some { methods := [{ name := "print", params := [.string], target := 3 }] }⟩),
  (⟨"Readable"⟩, ⟨{ TypeInfo.topLevel ⟨"Readable"⟩ with kind := .interface },
    some { methods := [{ name := "print", params := [.string], target := 4 }] }⟩)]⟩

/-- A text is printed as devices print it, although the printer itself takes it for an object. -/
theorem exact_method_found_printer :
    let d : Dispatcher Unit := { catalog := printer, host := .idle }
    let v : Value := .object ⟨⟨"Printer"⟩, 1⟩
    let s := d.after [.findMethod v "print" [.int 7]] (d.start ())
    ∃ o, (d.findMethod v "print" [.string "text"] s).1 = .ok o ∧ o.owner = ⟨"Device"⟩ ∧
      o.params = [.string] ∧
      (Registry.score? printer true [.string "text"] o s.registry).1 = some 6 := by
  intro d v s
  have hvisited : printer.Visits ⟨"Printer"⟩ [⟨"Printer"⟩, ⟨"Device"⟩, ⟨"Readable"⟩] := by
    refine Catalog.visits_iff.mpr ?_
    decide +kernel
  have hdevice : printer.DeclaresMethod ⟨"Device"⟩ "print" [.string] :=
    ⟨_, _, rfl, List.mem_singleton_self _, rfl, rfl, rfl⟩
  have hprinter : ¬ printer.DeclaresMethod ⟨"Printer"⟩ "print" [.string] := by
    rintro ⟨listing, m, hlisting, hm, -, -, hparams⟩
    obtain rfl := Option.some.inj hlisting
    rcases List.mem_pair.mp hm with rfl | rfl <;> cases hparams
  have hs : d.Reached s := ⟨_, _, rfl⟩
  have hr : Receiver.of? v = some (.value ⟨"Printer"⟩ v) := rfl
  have hargs : [Value.string "text"].map Value.type? = [Ty.string].map some := rfl
  obtain ⟨o, before, after, hanswer, -, hparams, ⟨hsplit, howner, hbefore⟩, hscore⟩ :=
    exact_method_found hs rfl hr rfl rfl hvisited hargs (by simp) hdevice
  refine ⟨o, hanswer, ?_, hparams, (hscore (by simp) true).1⟩
  rcases before with _ | ⟨t, _ | ⟨u, rest⟩⟩
  · obtain ⟨heq, -⟩ := List.cons.inj hsplit
    exact absurd (heq ▸ howner) hprinter
  · obtain ⟨-, htail⟩ := List.cons.inj hsplit
    exact (List.cons.inj htail).1.symm
  · obtain ⟨-, htail⟩ := List.cons.inj hsplit
    obtain ⟨rfl, -⟩ := List.cons.inj htail
    exact absurd hdevice (hbefore _ (by simp))

end Dispatcher

end Dispatch
