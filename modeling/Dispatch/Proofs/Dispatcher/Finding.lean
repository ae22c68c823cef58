import Dispatch.Proofs.Resolution.History
import Dispatch.Proofs.Scoring.Best
import Dispatch.Proofs.Scoring.Bounds

/-!
# Finding an overload

A method is found on a receiver, and a constructor on a type, among the overloads that are looked up
there. If there are none, the search fails with one error, if all are rejected with another, and
else it answers the earliest of the best. A receiver that is null, or a type that is refused because
it has not been imported, ends the search before anything is looked up.

* `Dispatcher.findMethod_fst`, `Dispatcher.findConstructor_fst`: the answers, by the catalog.
* `Dispatcher.earliest_best_found`: the answers by the scores, in every state of a session.
-/

namespace Dispatch

/-! ### Answers of a search -/

/-- What a search answers that has looked up the overloads `os` under a name. -/
structure IsFound (score : Overload → Option Nat) (os : List Overload) (t : TypeName)
    (name : String) (args : List Value) (answer : Except DispatchError Overload) : Prop where
  ok_iff : ∀ o, answer = .ok o ↔ ∃ n, IsFirstBest score os o n
  noSuchMember_iff : ∀ u m, answer = .error (.noSuchMember u m) ↔ os = [] ∧ u = t ∧ m = name
  noSuchOverload_iff : ∀ u m types, answer = .error (.noSuchOverload u m types) ↔
    os ≠ [] ∧ (∀ o ∈ os, score o = none) ∧ u = t ∧ m = name ∧ types = args.map Value.type?

namespace Catalog

variable {c : Catalog} {recast : Bool} {t : TypeName} {name : String} {args : List Value}
  {os : List Overload}

theorem select_of_ne_nil (hos : os ≠ []) :
    c.select recast t name args os =
      match c.select? recast args os with
      | some best => .ok best.1
      | none => .error (.noSuchOverload t name (args.map Value.type?)) := by
  have hnonempty : ¬ os.isEmpty = true := by simpa using hos
  unfold select
  exact if_neg hnonempty

/-- A selection answers as a search for the first best overload should, errors included. -/
theorem isFound_select :
    IsFound (c.score? recast args) os t name args (c.select recast t name args os) where
  ok_iff o := by
    simp only [select_eq_ok_iff, ← select?_eq_some_iff, Option.map_eq_some_iff, Prod.exists,
      exists_and_right, exists_eq_right]
  noSuchMember_iff u m := by
    by_cases hos : os = []
    · subst hos
      simp [select, eq_comm]
    · rw [select_of_ne_nil hos]
      cases c.select? recast args os <;> simp [hos]
  noSuchOverload_iff u m types := by
    by_cases hos : os = []
    · subst hos
      simp [select]
    · rw [select_of_ne_nil hos, ← select?_eq_none_iff]
      cases c.select? recast args os <;> simp [hos, eq_comm]

end Catalog

namespace Dispatcher

open DispatchM Fallible

variable {σ : Type} {d : Dispatcher σ} {s : State σ}

/-! ### The gate -/

variable (d s) in
/-- Whether a type may be used: it is registered, or imports are not required. -/
def admits (t : TypeName) : Bool := !d.settings.requireImports || s.registry.isRegistered t

/-- A type may be used or is refused by its full name, and nothing else happens. -/
theorem ensureRegistered_fst_eq (t : TypeName) :
    (d.ensureRegistered t s).1 =
      if d.admits s t then .ok () else .error (.notImported t.full) := by
  cases himports : d.settings.requireImports with
  | false =>
    rw [ensureRegistered_fst himports, admits, himports]
    rfl
  | true =>
    cases h : s.registry.isRegistered t <;>
      simp [ensureRegistered, bind_apply, admits, h, himports]

/-- A receiver is refused for being null first, and then for a type that has not been imported. -/
theorem receiver_fst_eq (v : Value) (name : String) :
    (d.receiver v name s).1 =
      match Receiver.of? v with
      | none => .error (.nullReceiver name)
      | some r => if d.admits s r.type then .ok r else .error (.notImported r.type.full) := by
  unfold receiver
  cases Receiver.of? v with
  | none => rfl
  | some r =>
    simp only [bind_apply, ensureRegistered_fst_eq]
    cases d.admits s r.type <;> rfl

/-! ### Searches -/

/-- What the search for a method answers, in every state that agrees with the catalog. -/
theorem findMethod_fst (hs : d.catalog.Agrees s.registry) (v : Value) (name : String)
    (args : List Value) :
    (d.findMethod v name args s).1 =
      match Receiver.of? v with
      | none => .error (.nullReceiver name)
      | some r =>
        if d.admits s r.type then d.catalog.selectMethod s.recast r.type name args
        else .error (.notImported r.type.full) := by
  obtain ⟨registry, hregistry, hnext⟩ := exists_receiver_snd hs v name
  rw [findMethod, bind_apply, receiver_fst_eq, hnext]
  cases Receiver.of? v with
  | none => rfl
  | some r =>
    dsimp only
    cases d.admits s r.type with
    | false => rfl
    | true => exact onResolution_fst (Resolution.yields_selectMethod r.type name args) hregistry

/-- What the search for a constructor answers, in every state that agrees with the catalog. Whether
the type may be used is checked first, so for one that has not been imported its constructors do not
matter. -/
theorem findConstructor_fst (hs : d.catalog.Agrees s.registry) (t : TypeName)
    (args : List Value) :
    (d.findConstructor t args s).1 =
      if d.admits s t then d.catalog.selectConstructor s.recast t args
      else .error (.notImported t.full) := by
  obtain ⟨registry, hregistry, hnext⟩ := exists_ensureRegistered_snd hs t
  rw [findConstructor, bind_apply, ensureRegistered_fst_eq, hnext]
  cases d.admits s t with
  | false => rfl
  | true => exact onResolution_fst (Resolution.yields_selectConstructor t args) hregistry

/-! ### Answers in a session -/

/-- In every state of a session, and for arguments of any number. Accepted scores lie between the
number of arguments and six times as much, where no argument counts as one. From a list of
overloads nothing is selected exactly if all are rejected, and else the earliest of the highest
score; in another order of the list the score is the same, and so is the overload unless there is a
tie. A search for a method or a constructor answers accordingly, once its type is admitted: with one
error exactly if there is nothing to choose from, and with another exactly if there is, but all of
it is rejected. -/
theorem earliest_best_found (hs : d.Reached s) (args : List Value) :
    let c := d.catalog
    let score := fun recast o => (Registry.score? c recast args o s.registry).1
    let selected := fun recast os => (Registry.select? c recast args os s.registry).1
    (∀ recast o n, score recast o = some n →
      max 1 args.length ≤ n ∧ n ≤ 6 * max 1 args.length) ∧
    (∀ recast os,
      (selected recast os = none ↔ ∀ o ∈ os, score recast o = none) ∧
      (∀ o n, selected recast os = some (o, n) ↔ IsFirstBest (score recast) os o n) ∧
      ∀ os', os.Perm os' →
        (selected recast os').map (·.2) = (selected recast os).map (·.2) ∧
        ∀ o n, selected recast os = some (o, n) →
          (∀ p ∈ os, score recast p = some n → p = o) → selected recast os' = some (o, n)) ∧
    (∀ v name,
      match Receiver.of? v with
      | none => (d.findMethod v name args s).1 = .error (.nullReceiver name)
      | some r =>
        if d.admits s r.type then
          IsFound (score s.recast) (Registry.methods c r.type name s.registry).1 r.type name args
            (d.findMethod v name args s).1
        else (d.findMethod v name args s).1 = .error (.notImported r.type.full)) ∧
    ∀ t,
      if d.admits s t then
        IsFound (score s.recast) (Registry.constructors c t s.registry).1 t t.simple args
          (d.findConstructor t args s).1
      else (d.findConstructor t args s).1 = .error (.notImported t.full) := by
  intro c score selected
  have hscore : score = fun recast => c.score? recast args := by
    funext recast o
    exact hs.answer_eq (Registry.yields_score? args o)
  have hselected : selected = fun recast => c.select? recast args := by
    funext recast os
    exact hs.answer_eq (Registry.yields_select? args os)
  rw [hscore, hselected]
  refine ⟨fun recast o n => Catalog.score?_bounds, fun recast os => ⟨?_, ?_, ?_⟩, ?_, ?_⟩
  · exact Catalog.select?_eq_none_iff
  · exact fun o n => Catalog.select?_eq_some_iff
  · intro os' hperm
    exact ⟨Catalog.map_select?_eq_of_perm hperm, fun o n => Catalog.select?_eq_some_of_perm hperm⟩
  · intro v name
    rw [findMethod_fst hs.agrees]
    cases Receiver.of? v with
    | none => rfl
    | some r =>
      dsimp only
      rw [hs.answer_eq (Registry.yields_methods r.type name)]
      cases d.admits s r.type with
      | false => rfl
      | true => exact Catalog.isFound_select
  · intro t
    rw [findConstructor_fst hs.agrees, hs.answer_eq (Registry.yields_constructors t)]
    cases d.admits s t with
    | false => rfl
    | true => exact Catalog.isFound_select

/-- A till that takes what is of metal and what is round, and coins, which are both. -/
def till : Catalog := .ofTable ⟨[
  (⟨"Coin"⟩, ⟨{ TypeInfo.topLevel ⟨"Coin"⟩ with interfaces := [⟨"Metal"⟩, ⟨"Round"⟩] }, some {}⟩),
  (⟨"Till"⟩, ⟨.topLevel ⟨"Till"⟩, some {
    methods := [
      { name := "take", params := [.named ⟨"Metal"⟩], isStatic := true, target := 1 },
      { name := "take", params := [.named ⟨"Round"⟩], isStatic := true, target := 2 }] }⟩)]⟩

/-- A coin is taken for metal, which comes first; in the other order the score would be the same. A
word is rejected both ways, and a till cannot be made at all. -/
theorem earliest_best_found_till :
    let d : Dispatcher Unit := { catalog := till, host := .idle }
    let s := d.after [.setRecast true] (d.start ())
    let found := (Registry.methods till ⟨"Till"⟩ "take" s.registry).1
    let metal : Overload := ⟨⟨"Till"⟩, "take", [.named ⟨"Metal"⟩], true, 1⟩
    let coin : Value := .object ⟨⟨"Coin"⟩, 1⟩
    (Registry.select? till true [coin] found s.registry).1 = some (metal, 5) ∧
      (Registry.select? till true [coin] found.reverse s.registry).1.map (·.2) = some 5 ∧
      (d.findMethod (.type ⟨"Till"⟩) "take" [coin] s).1 = .ok metal ∧
      (d.findMethod (.type ⟨"Till"⟩) "take" [.string "word"] s).1 =
        .error (.noSuchOverload ⟨"Till"⟩ "take" [some .string]) ∧
      (d.findConstructor ⟨"Till"⟩ [] s).1 = .error (.noSuchMember ⟨"Till"⟩ "Till") := by
  intro d s found metal coin
  have hs : d.Reached s := ⟨_, _, rfl⟩
  have hmetal : (Registry.select? till true [coin] found s.registry).1 =
      some (metal, 5) := by decide +kernel
  have hnone : (Registry.select? till true [.string "word"] found s.registry).1 = none := by
    decide +kernel
  have hmake : (Registry.constructors till ⟨"Till"⟩ s.registry).1 = [] := by decide
  obtain ⟨-, hselect, hcoin, -⟩ := earliest_best_found hs [coin]
  obtain ⟨-, hreject, hword, -⟩ := earliest_best_found hs [.string "word"]
  obtain ⟨-, -, -, hempty⟩ := earliest_best_found hs []
  obtain ⟨-, hfirst, hperm⟩ := hselect true found
  have hfound : found ≠ [] := List.ne_nil_of_mem ((hfirst metal 5).mp hmetal).mem
  refine ⟨hmetal, ?_, ?_, ?_, ?_⟩
  · exact (hperm found.reverse found.reverse_perm.symm).1.trans (congrArg _ hmetal)
  · exact ((hcoin (.type ⟨"Till"⟩) "take").ok_iff metal).mpr ⟨5, (hfirst metal 5).mp hmetal⟩
  · have hrejected := (hreject true found).1.mp hnone
    exact ((hword (.type ⟨"Till"⟩) "take").noSuchOverload_iff _ _ _).mpr
      ⟨hfound, hrejected, rfl, rfl, rfl⟩
  · exact ((hempty ⟨"Till"⟩).noSuchMember_iff _ _).mpr ⟨hmake, rfl, rfl⟩

end Dispatcher

end Dispatch
