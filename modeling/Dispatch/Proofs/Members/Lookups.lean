import Dispatch.Proofs.Dispatcher.Moves
import Dispatch.Proofs.Hierarchy.Visits

/-!
# What is looked up

The members of a type are collected level by level, with one list for all names, and kept; a look-up
then takes those of one name out of the list. What comes out can be said without the list: it is what
the visited types declare under the name, in the order of the visit and of the declarations, less
what repeats a parameter list. Nothing else is dropped, and it does not matter what has been looked
up or registered before.

* `Catalog.methods_eq`, `Catalog.field?_eq`, `Catalog.constructors_eq`: what a catalog gives.
* `Dispatcher.lookups_eq`: what a registry answers, in every state of a session.
-/

namespace Dispatch

/-! ### Keeping the first -/

section KeepFirst

variable {α : Type} {agree agree' : α → α → Bool} {p : α → Bool} {l : List α}

/-- Whether the elements that agree are dropped before or after others makes no difference. -/
theorem filter_keepFirst (hp : ∀ a b, agree a b = true → p a = p b) :
    (keepFirst agree l).filter p = keepFirst agree (l.filter p) := by
  induction l with
  | nil => rfl
  | cons a rest ih =>
    rw [keepFirst]
    cases ha : p a with
    | true =>
      rw [List.filter_cons_of_pos ha, List.filter_cons_of_pos ha, keepFirst, ← ih,
        List.filter_filter, List.filter_filter]
      simp only [Bool.and_comm]
    | false =>
      rw [List.filter_cons_of_neg (by simp [ha]), List.filter_cons_of_neg (by simp [ha]), ← ih,
        List.filter_filter]
      -- what agrees with `a` is filtered out along with it
      refine List.filter_congr fun b _ => ?_
      cases hab : agree a b with
      | false => simp
      | true => simp [← hp a b hab, ha]

theorem keepFirst_congr (h : ∀ a ∈ l, ∀ b ∈ l, agree a b = agree' a b) :
    keepFirst agree l = keepFirst agree' l := by
  induction l with
  | nil => rfl
  | cons a rest ih =>
    have hrest : keepFirst agree rest = keepFirst agree' rest := ih fun b hb d hd =>
      h b (List.mem_cons_of_mem _ hb) d (List.mem_cons_of_mem _ hd)
    rw [keepFirst, keepFirst, hrest]
    refine congrArg (a :: ·) (List.filter_congr fun b hb => ?_)
    rw [h a List.mem_cons_self b (List.mem_cons_of_mem _ ((keepFirst_sublist _ _).subset hb))]

theorem head?_keepFirst : (keepFirst agree l).head? = l.head? := by
  cases l <;> rfl

/-- To keep the first of those that share a key is to erase the duplicates of it. -/
theorem keepFirst_eq_eraseDupsBy {κ : Type} [BEq κ] [LawfulBEq κ] (key : α → κ) (l : List α) :
    keepFirst (fun a b => key a == key b) l = l.eraseDupsBy fun a b => key a == key b := by
  induction hn : l.length using Nat.strongRecOn generalizing l with
  | ind n ih =>
    cases l with
    | nil => rfl
    | cons a rest =>
      have hdrop : (fun b => decide ((key b == key a) = false)) = fun b => !(key a == key b) := by
        funext b
        rw [Bool.beq_comm (a := key b)]
        cases key a == key b <;> rfl
      have hkey : ∀ b d, (key b == key d) = true →
          (!(key a == key b)) = !(key a == key d) := by
        intro b d hbd
        rw [eq_of_beq hbd]
      have hlength : (rest.filter fun b => !(key a == key b)).length < n := by
        rw [← hn]
        exact Nat.lt_succ_of_le (List.length_filter_le _ _)
      rw [keepFirst, List.eraseDupsBy_cons, hdrop, filter_keepFirst hkey, ih _ hlength _ rfl]

end KeepFirst

namespace Catalog

variable {c : Catalog} {t : TypeName} {info : TypeInfo}

/-! ### Own members -/

variable (c) in
/-- The public methods of a name that a type declares itself. -/
def declaredMethods (name : String) (u : TypeName) : List Overload :=
  (((c.members u).getD {}).methods.filter fun m => m.isPublic && m.name == name).map fun m =>
    { owner := u, name := m.name, params := m.params, isStatic := m.isStatic, target := m.target }

variable (c) in
/-- The public fields of a name that a type declares itself. -/
def declaredFields (name : String) (u : TypeName) : List Field :=
  (((c.members u).getD {}).fields.filter fun f => f.isPublic && f.name == name).map fun f => ⟨u, f⟩

variable (c) in
/-- The public constructors that a type declares itself. -/
def declaredConstructors (u : TypeName) : List Overload :=
  (((c.members u).getD {}).constructors.filter (·.isPublic)).map fun m =>
    { owner := u, name := u.simple, params := m.params, isStatic := true, target := m.target }

theorem filter_publicMethods (name : String) (u : TypeName) :
    (Members.publicMethods (u, c.members u)).filter (·.name == name) =
      c.declaredMethods name u := by
  unfold Members.publicMethods declaredMethods
  cases c.members u with
  | none => rfl
  | some listing =>
    simp only [List.filter_map, List.filter_filter, Option.getD_some]
    congr 1
    refine List.filter_congr fun m _ => ?_
    exact Bool.and_comm _ _

theorem filter_publicFields (name : String) (u : TypeName) :
    (Members.publicFields (u, c.members u)).filter (·.decl.name == name) =
      c.declaredFields name u := by
  unfold Members.publicFields declaredFields
  cases c.members u with
  | none => rfl
  | some listing =>
    simp only [List.filter_map, List.filter_filter, Option.getD_some]
    congr 1
    refine List.filter_congr fun f _ => ?_
    exact Bool.and_comm _ _

theorem publicConstructors_eq (u : TypeName) :
    Members.publicConstructors (u, c.members u) = c.declaredConstructors u := by
  unfold Members.publicConstructors declaredConstructors
  cases c.members u <;> rfl

/-! ### Members by name -/

theorem name_of_mem_declaredMethods {name : String} {o : Overload}
    (h : o ∈ (c.order t).flatMap (c.declaredMethods name)) : o.name = name := by
  obtain ⟨u, -, ho⟩ := List.mem_flatMap.mp h
  rw [← filter_publicMethods] at ho
  exact eq_of_beq (List.mem_filter.mp ho).2

/-- The methods of a name over all levels in order, with one for each list of parameter types. -/
theorem methods_eq (ht : c.describe t = some info) (hpublic : info.isPublic = true)
    (name : String) :
    c.methods t name = ((c.order t).flatMap (c.declaredMethods name)).eraseDupsBy
      fun o p => o.params == p.params := by
  have hsame : ∀ o p, Overload.sameSignature o p = true →
      (o.name == name) = (p.name == name) := by
    intro o p hop
    rw [(Overload.sameSignature_iff.mp hop).1]
  have htable : c.methods t name = (c.membersOf t info).methods.filter (·.name == name) := by
    simp [methods, memberTable?, ht, Members.methodsNamed]
  rw [htable, methods_membersOf hpublic, filter_keepFirst hsame, List.filter_flatMap]
  simp only [filter_publicMethods]
  rw [← keepFirst_eq_eraseDupsBy]
  -- among methods of one name the parameters are the whole signature
  refine keepFirst_congr fun o ho p hp => ?_
  simp [Overload.sameSignature, name_of_mem_declaredMethods ho, name_of_mem_declaredMethods hp]

/-- The field of a name is the first declared over all levels in order. -/
theorem field?_eq (ht : c.describe t = some info) (hpublic : info.isPublic = true)
    (name : String) :
    c.field? t name = ((c.order t).flatMap (c.declaredFields name)).head? := by
  have hsame : ∀ f g : Field, (f.decl.name == g.decl.name) = true →
      (f.decl.name == name) = (g.decl.name == name) := by
    intro f g hfg
    rw [eq_of_beq hfg]
  rw [field?_eq_find? ht, ← List.head?_filter, fields_membersOf hpublic, filter_keepFirst hsame,
    head?_keepFirst, List.filter_flatMap]
  simp only [filter_publicFields]

/-- The constructors are those of the type itself, and an enumeration has none. -/
theorem constructors_eq (ht : c.describe t = some info) (hpublic : info.isPublic = true) :
    c.constructors t = if info.isEnumeration then [] else c.declaredConstructors t := by
  have htable : c.constructors t = (c.membersOf t info).constructors := by
    simp [constructors, memberTable?, ht]
  rw [htable, membersOf, if_pos hpublic, ← publicConstructors_eq]
  cases info.isEnumeration <;> rfl

/-- A type that is not described, or not public, shows nothing. -/
theorem shows_nothing (h : (c.describe t).filter (·.isPublic) = none) :
    (∀ name, c.methods t name = []) ∧ (∀ name, c.field? t name = none) ∧ c.constructors t = [] := by
  have htable : c.memberTable? t = none ∨ c.memberTable? t = some {} := by
    unfold memberTable?
    cases ht : c.describe t with
    | none => exact .inl rfl
    | some info =>
      have hpublic : info.isPublic = false := by simpa [ht] using h
      exact .inr (by simp [membersOf, hpublic])
  unfold methods field? constructors
  rcases htable with htable | htable <;>
    simp [htable, Members.methodsNamed, Members.fieldNamed?]

end Catalog

namespace Dispatcher

variable {σ : Type} {d : Dispatcher σ}

/-- In every state of a session, whatever is known by then, and for every type, cycles above it or
not: the visit of the types that it inherits from ends, meets none of them twice, meets no others,
and is what the registry walks. For a public type
the methods of a name are those that the visited types declare public under it, in the order of the
visit and of the declarations, less those whose parameters have occurred before;
the field of a name is the first one that they declare public under it;
and the constructors are the public ones of the type itself, unless it is an enumeration.
All other types show nothing. -/
theorem lookups_eq (host : σ) (steps : List Step) (t : TypeName) :
    let c := d.catalog
    let r := (d.after steps (d.start host)).registry
    ∃ order, (∀ visited, c.Visits t visited ↔ visited = order) ∧ order.Nodup ∧
      (∀ u, u ∈ order ↔ c.Inherits t u ∧ ∃ info, c.describe u = some info) ∧
      (Hierarchy.levels (Registry.info? c) (c.above t) t r).1.map (·.1) = order ∧
      match (c.describe t).filter (·.isPublic) with
      | some info =>
        (∀ name, (Registry.methods c t name r).1 =
          (order.flatMap (c.declaredMethods name)).eraseDupsBy fun o p => o.params == p.params) ∧
        (∀ name, (Registry.field? c t name r).1 =
          (order.flatMap (c.declaredFields name)).head?) ∧
        (Registry.constructors c t r).1 =
          if info.isEnumeration then [] else c.declaredConstructors t
      | none =>
        (∀ name, (Registry.methods c t name r).1 = []) ∧
        (∀ name, (Registry.field? c t name r).1 = none) ∧
        (Registry.constructors c t r).1 = [] := by
  intro c r
  have hs : d.Reached (d.after steps (d.start host)) := ⟨host, steps, rfl⟩
  have hmethods : ∀ name, (Registry.methods c t name r).1 = c.methods t name := fun name =>
    hs.answer_eq (Registry.yields_methods t name)
  have hfield : ∀ name, (Registry.field? c t name r).1 = c.field? t name := fun name =>
    hs.answer_eq (Registry.yields_field? t name)
  have hconstructors : (Registry.constructors c t r).1 = c.constructors t :=
    hs.answer_eq (Registry.yields_constructors t)
  have hwalk : (Hierarchy.levels (Registry.info? c) (c.above t) t r).1.map (·.1) = c.order t :=
    congrArg (List.map (·.1)) (Registry.ensures_levels hs.agrees t).post.1
  refine ⟨c.order t, fun _ => Catalog.visits_iff, Catalog.nodup_order t,
    fun _ => Catalog.mem_order_iff, hwalk, ?_⟩
  cases hshown : (c.describe t).filter (·.isPublic) with
  | some info =>
    obtain ⟨hinfo, hpublic⟩ := Option.filter_eq_some_iff.mp hshown
    refine ⟨fun name => ?_, fun name => ?_, ?_⟩
    · rw [hmethods, Catalog.methods_eq hinfo hpublic]
    · rw [hfield, Catalog.field?_eq hinfo hpublic]
    · rw [hconstructors, Catalog.constructors_eq hinfo hpublic]
  | none =>
    obtain ⟨hnoMethods, hnoField, hnoConstructors⟩ := Catalog.shows_nothing hshown
    exact ⟨fun name => (hmethods name).trans (hnoMethods name),
      fun name => (hfield name).trans (hnoField name), hconstructors.trans hnoConstructors⟩

end Dispatcher

namespace Catalog

/-- Two classes that extend each other and implement two interfaces that extend each other. -/
def ring : Catalog := .ofTable ⟨[
  (⟨"A"⟩, ⟨{ TypeInfo.topLevel ⟨"A"⟩ with superclass := some ⟨"B"⟩, interfaces := [⟨"I"⟩] },
    some { methods := [{ name := "m", params := [], target := 1 },
                       { name := "m", params := [.raw .int], isPublic := false, target := 2 }] }⟩),
  (⟨"B"⟩, ⟨{ TypeInfo.topLevel ⟨"B"⟩ with superclass := some ⟨"A"⟩ },
    some { methods := [{ name := "m", params := [], target := 3 },
                       { name := "m", params := [.raw .int], isStatic := true, target := 4 }] }⟩),
  (⟨"I"⟩, ⟨{ TypeInfo.topLevel ⟨"I"⟩ with kind := .interface, interfaces := [⟨"J"⟩] },
    some { methods := [{ name := "m", params := [.raw .int], target := 5 }] }⟩),
  (⟨"J"⟩, ⟨{ TypeInfo.topLevel ⟨"J"⟩ with kind := .interface, interfaces := [⟨"I"⟩] },
    some { methods := [{ name := "m", params := [.string], target := 6 }] }⟩)]⟩

end Catalog

/-- Each of them is visited once, and of the methods that repeat a signature the first is found,
also where a method that is not public comes before it. -/
theorem Dispatcher.lookups_eq_ring :
    let d : Dispatcher Unit := { catalog := .ring, host := .idle }
    let r := (d.after [.registry (.load ⟨"J"⟩)] (d.start ())).registry
    Catalog.ring.Visits ⟨"A"⟩ [⟨"A"⟩, ⟨"B"⟩, ⟨"I"⟩, ⟨"J"⟩] ∧
      (Registry.methods .ring ⟨"A"⟩ "m" r).1 =
        [{ owner := ⟨"A"⟩, name := "m", params := [], isStatic := false, target := 1 },
          { owner := ⟨"B"⟩, name := "m", params := [.raw .int], isStatic := true, target := 4 },
          { owner := ⟨"J"⟩, name := "m", params := [.string], isStatic := false, target := 6 }] := by
  intro d r
  obtain ⟨order, hvisits, -, -, hwalk, hshown⟩ :=
    lookups_eq (d := d) () [.registry (.load ⟨"J"⟩)] ⟨"A"⟩
  have horder : (Hierarchy.levels (Registry.info? .ring) (Catalog.ring.above ⟨"A"⟩) ⟨"A"⟩
      r).1.map (·.1) = [⟨"A"⟩, ⟨"B"⟩, ⟨"I"⟩, ⟨"J"⟩] := by decide +kernel
  obtain rfl := hwalk.symm.trans horder
  obtain ⟨hmethods, -⟩ := hshown
  refine ⟨(hvisits _).mpr rfl, (hmethods "m").trans ?_⟩
  decide

end Dispatch
