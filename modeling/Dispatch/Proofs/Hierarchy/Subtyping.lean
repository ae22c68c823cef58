import Dispatch.Proofs.Dispatcher.Moves
import Dispatch.Proofs.Hierarchy.Visits
import Mathlib.Data.Set.Finite.Basic

/-!
# Subtyping

A subtype test as it is meant to go: it works through a queue, passes over what it has seen, has the
registry describe the rest, and looks for its target among the supertypes of each type before it
queues them. What is remembered on the way is the types that have been seen, and nothing bounds
their number; so that there is a test at all says that it ends, whatever cycles the catalog has. The
registry learns while the test runs, and the relations below carry it along.

* `Registry.tests_iff`: there is exactly one test of two types, and it is what a registry answers.
* `Dispatcher.isSubtype_iff_path`: in every state of a session the answer is whether a path leads
  from the one type to the other.
* `exists_catalog_iff`: a catalog is a description in which finitely many types lie above each type,
  and no more than that.
-/

namespace Dispatch

open Hierarchy Relation

namespace Registry

/-! ### How a test goes -/

/-- The search of a test, from what has been seen and a queue. A type that has not been seen comes
up once; if it is described, either the target is among its supertypes, or these queue up. -/
inductive Seeks (c : Catalog) (target : TypeName) :
    List TypeName → List TypeName → Registry → Bool → Registry → Prop
  | exhausted {seen r} : Seeks c target seen [] r false r
  | skip {seen t queue r found r'} (hseen : t ∈ seen)
      (hrest : Seeks c target seen queue r found r') :
      Seeks c target seen (t :: queue) r found r'
  | unknown {seen t queue r r₁ found r'} (hnew : t ∉ seen) (hinfo : info? c t r = (none, r₁))
      (hrest : Seeks c target (t :: seen) queue r₁ found r') :
      Seeks c target seen (t :: queue) r found r'
  | hit {seen t info queue r r'} (hnew : t ∉ seen) (hinfo : info? c t r = (some info, r'))
      (htarget : target ∈ info.supertypes) : Seeks c target seen (t :: queue) r true r'
  | expand {seen t info queue r r₁ found r'} (hnew : t ∉ seen)
      (hinfo : info? c t r = (some info, r₁)) (htarget : target ∉ info.supertypes)
      (hrest : Seeks c target (t :: seen) (queue ++ info.supertypes) r₁ found r') :
      Seeks c target seen (t :: queue) r found r'

/-- A test whether `sub` is `sup` or below it: equal names need no search. -/
inductive Tests (c : Catalog) (sub sup : TypeName) (r : Registry) : Bool → Registry → Prop
  | same (h : sub = sup) : Tests c sub sup r true r
  | search {found r'} (h : sub ≠ sup) (hseeks : Seeks c sup [] [sub] r found r') :
      Tests c sub sup r found r'

/-! ### There is at most one test -/

variable {c : Catalog} {target : TypeName} {r : Registry}

/-- The search has one outcome and leaves one registry. -/
theorem Seeks.unique {seen queue : List TypeName} {found₁ found₂ : Bool} {r₁ r₂ : Registry}
    (h₁ : Seeks c target seen queue r found₁ r₁) (h₂ : Seeks c target seen queue r found₂ r₂) :
    found₁ = found₂ ∧ r₁ = r₂ := by
  induction h₁ generalizing found₂ r₂ with
  | exhausted =>
    cases h₂
    exact ⟨rfl, rfl⟩
  | skip hseen _ ih =>
    cases h₂ with
    | skip _ hrest => exact ih hrest
    | unknown hnew | hit hnew | expand hnew => exact absurd hseen hnew
  | unknown hnew hinfo _ ih =>
    cases h₂ with
    | skip hseen => exact absurd hseen hnew
    | unknown _ hinfo' hrest =>
      obtain ⟨-, rfl⟩ := Prod.mk.inj (hinfo.symm.trans hinfo')
      exact ih hrest
    | hit _ hinfo' | expand _ hinfo' => cases hinfo.symm.trans hinfo'
  | hit hnew hinfo htarget =>
    cases h₂ with
    | skip hseen => exact absurd hseen hnew
    | unknown _ hinfo' => cases hinfo.symm.trans hinfo'
    | hit _ hinfo' =>
      obtain ⟨-, rfl⟩ := Prod.mk.inj (hinfo.symm.trans hinfo')
      exact ⟨rfl, rfl⟩
    | expand _ hinfo' htarget' =>
      obtain ⟨hsame, -⟩ := Prod.mk.inj (hinfo.symm.trans hinfo')
      exact absurd (Option.some.inj hsame ▸ htarget) htarget'
  | expand hnew hinfo htarget _ ih =>
    cases h₂ with
    | skip hseen => exact absurd hseen hnew
    | unknown _ hinfo' => cases hinfo.symm.trans hinfo'
    | hit _ hinfo' htarget' =>
      obtain ⟨hsame, -⟩ := Prod.mk.inj (hinfo.symm.trans hinfo')
      exact absurd (Option.some.inj hsame ▸ htarget') htarget
    | expand _ hinfo' _ hrest =>
      obtain ⟨hsame, rfl⟩ := Prod.mk.inj (hinfo.symm.trans hinfo')
      obtain rfl := Option.some.inj hsame
      exact ih hrest

/-! ### The walk is a test -/

/-- The search that is bounded by the types still to be visited goes as the one that remembers what
it has seen. -/
theorem seeks_search {all unvisited seen queue : List TypeName} (h : c.Splits all unvisited seen)
    (hqueue : ∀ t ∈ queue, t ∈ all) (hr : c.Agrees r) :
    Seeks c target seen queue r (Hierarchy.search (info? c) target unvisited queue r).1
      (Hierarchy.search (info? c) target unvisited queue r).2 := by
  induction unvisited, queue using queue_induction generalizing seen r with
  | done =>
    rw [Hierarchy.search_nil]
    exact .exhausted
  | skip unvisited t queue ht ih =>
    have hseen : t ∈ seen := by
      by_contra hnew
      exact ht ((h.mem_iff (hqueue t List.mem_cons_self)).mpr hnew)
    rw [Hierarchy.search_skip ht]
    exact .skip hseen (ih h (fun u hu => hqueue u (List.mem_cons_of_mem _ hu)) hr)
  | visit unvisited t queue ht ih =>
    have hall : t ∈ all := hqueue t List.mem_cons_self
    have hrest : ∀ u ∈ queue, u ∈ all := fun u hu => hqueue u (List.mem_cons_of_mem _ hu)
    have hnew : t ∉ seen := (h.mem_iff hall).mp ht
    have hyields := yields_info? t r hr
    have hr₁ : c.Agrees (info? c t r).2 := hr.moves hyields.moves
    -- the search goes on from the registry that has been asked about `t`
    rw [Hierarchy.search_visit ht, RegistryM.bind_apply]
    cases hinfo : (info? c t r).1 with
    | none => exact .unknown hnew (Prod.ext hinfo rfl) (ih queue (h.see t) hrest hr₁)
    | some info =>
      have hasked : info? c t r = (some info, (info? c t r).2) := Prod.ext hinfo rfl
      have hdesc : c.describe t = some info := hyields.post.symm.trans hinfo
      by_cases htarget : target ∈ info.supertypes
      · simp only [if_pos htarget]
        exact .hit hnew hasked htarget
      · simp only [if_neg htarget]
        refine .expand hnew hasked htarget (ih _ (h.see t) (fun u hu => ?_) hr₁)
        rcases List.mem_append.mp hu with hu | hu
        · exact hrest u hu
        · exact h.closed hall ⟨info, hdesc, hu⟩

/-- Two types are tested in exactly one way. -/
theorem tests_iff (hr : c.Agrees r) {sub sup : TypeName} {found : Bool} {r' : Registry} :
    Tests c sub sup r found r' ↔ isSubtype c sub sup r = (found, r') := by
  by_cases h : sub = sup
  · have hrun : isSubtype c sub sup r = (true, r) := by
      rw [isSubtype, Hierarchy.reaches, if_pos h]
      rfl
    rw [hrun]
    constructor
    · rintro (_ | ⟨hne, -⟩)
      · rfl
      · exact absurd h hne
    · intro heq
      obtain ⟨rfl, rfl⟩ := Prod.mk.inj heq
      exact .same h
  · have hrun : isSubtype c sub sup r =
        Hierarchy.search (info? c) sup (c.above sub) [sub] r := by
      rw [isSubtype, Hierarchy.reaches, if_neg h]
    have hstart : ∀ t ∈ [sub], t ∈ c.above sub := by
      intro t ht
      rw [List.mem_singleton.mp ht]
      exact c.mem_above sub
    have hseeks : Seeks c sup [] [sub] r (Hierarchy.search (info? c) sup (c.above sub) [sub] r).1
        (Hierarchy.search (info? c) sup (c.above sub) [sub] r).2 :=
      seeks_search (Catalog.splits_above sub) hstart hr
    rw [hrun]
    constructor
    · rintro (heq | ⟨-, hseeks'⟩)
      · exact absurd heq h
      · obtain ⟨rfl, rfl⟩ := hseeks'.unique hseeks
        rfl
    · intro heq
      rw [heq] at hseeks
      exact .search h hseeks

end Registry

/-! ### Which descriptions are catalogs -/

/-- There is a catalog of a description exactly if finitely many types lie above each type. -/
theorem exists_catalog_iff {describe : TypeName → Option TypeInfo}
    {members : TypeName → Option Listing} :
    (∃ c : Catalog, c.describe = describe ∧ c.members = members) ↔
      ∀ t, {u | ReflTransGen (fun t u => ∃ info, describe t = some info ∧ u ∈ info.supertypes)
        t u}.Finite := by
  constructor
  · rintro ⟨c, rfl, rfl⟩ t
    refine (c.above t).finite_toSet.subset fun u hu => ?_
    exact Catalog.mem_above_of_below hu
  · intro hfinite
    have hmem : ∀ t u, u ∈ (hfinite t).toFinset.toList ↔ ReflTransGen
        (fun t u => ∃ info, describe t = some info ∧ u ∈ info.supertypes) t u := by
      intro t u
      rw [Finset.mem_toList, Set.Finite.mem_toFinset]
      exact Iff.rfl
    refine ⟨⟨describe, members, fun t => (hfinite t).toFinset.toList, fun t => ?_, ?_⟩, rfl, rfl⟩
    · exact (hmem t t).mpr .refl
    · intro t u s info hu hinfo hs
      exact (hmem t s).mpr (((hmem t u).mp hu).tail ⟨info, hinfo, hs⟩)

/-! ### Answers -/

/-- The order of subtypes is generated by superclasses and interfaces alike. -/
theorem Catalog.below_iff {c : Catalog} {t u : TypeName} :
    c.Below t u ↔ ReflTransGen (fun t u => c.Extends t u ∨ c.Implements t u) t u := by
  have hsteps : c.Derives = fun t u => c.Extends t u ∨ c.Implements t u := by
    funext t u
    exact propext derives_iff
  rw [Below, hsteps]

namespace Dispatcher

variable {σ : Type}

/-- In every reached state a test gives the answer of the catalog. -/
theorem Reached.isSubtype_fst {d : Dispatcher σ} {s : State σ} (h : d.Reached s)
    (sub sup : TypeName) :
    (Registry.isSubtype d.catalog sub sup s.registry).1 = d.catalog.isSubtype sub sup :=
  h.answer_eq (Registry.yields_isSubtype sub sup)

/-- In every state of a session, whatever is known by then, and for any two types, cycles above them
or not: the test ends, and in one way. Its answer is whether they are the same or a path of steps
leads from the one to the other, each from a type that the catalog describes to its superclass or
one of its interfaces. So it is transitive, and it is the same in every other state. -/
theorem isSubtype_iff_path (d : Dispatcher σ) (host : σ) (steps : List Step) (a b : TypeName) :
    let c := d.catalog
    let r := (d.after steps (d.start host)).registry
    (∀ found r', Registry.Tests c a b r found r' ↔ Registry.isSubtype c a b r = (found, r')) ∧
    ((Registry.isSubtype c a b r).1 = true ↔
      ReflTransGen (fun t u => c.Extends t u ∨ c.Implements t u) a b) ∧
    (∀ b', (Registry.isSubtype c a b r).1 = true → (Registry.isSubtype c b b' r).1 = true →
      (Registry.isSubtype c a b' r).1 = true) ∧
    ∀ host' steps', (Registry.isSubtype c a b (d.after steps' (d.start host')).registry).1 =
      (Registry.isSubtype c a b r).1 := by
  intro c r
  have hs : d.Reached (d.after steps (d.start host)) := ⟨host, steps, rfl⟩
  have hanswer : ∀ t u, (Registry.isSubtype c t u r).1 = c.isSubtype t u := hs.isSubtype_fst
  refine ⟨fun _ _ => Registry.tests_iff hs.agrees, ?_, fun b' hab hbb' => ?_,
    fun host' steps' => ?_⟩
  · rw [hanswer, Catalog.isSubtype_iff, Catalog.below_iff]
  · rw [hanswer, Catalog.isSubtype_iff] at hab hbb' ⊢
    exact hab.trans hbb'
  · have hs' : d.Reached (d.after steps' (d.start host')) := ⟨host', steps', rfl⟩
    rw [hanswer]
    exact hs'.isSubtype_fst a b

end Dispatcher

namespace Catalog

/-- Two interfaces that extend each other, one of them also an interface that is not described,
below a class and one that extends it. -/
def kennel : Catalog := .ofTable ⟨[
  (⟨"Puppy"⟩, ⟨{ TypeInfo.topLevel ⟨"Puppy"⟩ with superclass := some ⟨"Dog"⟩ }, none⟩),
  (⟨"Dog"⟩, ⟨{ TypeInfo.topLevel ⟨"Dog"⟩ with interfaces := [⟨"Tame"⟩] }, none⟩),
  (⟨"Tame"⟩, ⟨{ TypeInfo.topLevel ⟨"Tame"⟩ with kind := .interface, interfaces := [⟨"Loyal"⟩] },
    none⟩),
  (⟨"Loyal"⟩, ⟨{ TypeInfo.topLevel ⟨"Loyal"⟩ with
      kind := .interface, interfaces := [⟨"Tame"⟩, ⟨"Spirit"⟩] }, none⟩)]⟩

end Catalog

/-- A path leads from a class to an interface that is not described, past a cycle. None leads from
the cycle back to the class, and the test that finds this out ends. -/
theorem Dispatcher.isSubtype_iff_path_kennel :
    let d : Dispatcher Unit := { catalog := .kennel, host := .idle }
    let r := (d.after [.registry (.isSubtype ⟨"Loyal"⟩ ⟨"Dog"⟩)] (d.start ())).registry
    (Registry.isSubtype .kennel ⟨"Puppy"⟩ ⟨"Spirit"⟩ r).1 = true ∧
      ∃ r', Registry.Tests .kennel ⟨"Loyal"⟩ ⟨"Dog"⟩ r false r' := by
  intro d r
  let steps : List Step := [.registry (.isSubtype ⟨"Loyal"⟩ ⟨"Dog"⟩)]
  have hpuppy : Catalog.kennel.Extends ⟨"Puppy"⟩ ⟨"Dog"⟩ := ⟨_, rfl, rfl⟩
  have hdog : Catalog.kennel.Implements ⟨"Dog"⟩ ⟨"Tame"⟩ := ⟨_, rfl, by decide⟩
  have htame : Catalog.kennel.Implements ⟨"Tame"⟩ ⟨"Loyal"⟩ := ⟨_, rfl, by decide⟩
  have hloyal : Catalog.kennel.Implements ⟨"Loyal"⟩ ⟨"Spirit"⟩ := ⟨_, rfl, by decide⟩
  have hback : (Registry.isSubtype .kennel ⟨"Loyal"⟩ ⟨"Dog"⟩ {}).1 = false := by decide +kernel
  obtain ⟨-, hpath, -, -⟩ := isSubtype_iff_path d () steps ⟨"Puppy"⟩ ⟨"Spirit"⟩
  obtain ⟨htests, -, -, hother⟩ := isSubtype_iff_path d () steps ⟨"Loyal"⟩ ⟨"Dog"⟩
  constructor
  · exact hpath.mpr (.head (.inl hpuppy) (.head (.inr hdog) (.head (.inr htame)
      (.single (.inr hloyal)))))
  · have hanswer := (hother () []).symm.trans hback
    exact ⟨_, (htests false _).mpr (Prod.ext hanswer rfl)⟩

end Dispatch
