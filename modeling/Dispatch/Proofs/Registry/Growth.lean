import Dispatch.Proofs.Dispatcher.Moves

/-!
# What a registry asks and keeps

A registry asks the catalog only what it does not hold the answer to, and it holds every answer from
then on. So its log has no question to the catalog twice, and a listing is asked for only of a type
that has been described. Scanners are asked anew for each text, and their answers are not kept.

* `Registry.Grows` says that nothing kept is lost or changed; every move of the registry keeps to
  it (`Registry.Move.grows`).
* `Registry.Ledger` ties the log of questions to what is kept.
* `Dispatcher.asked_once_and_grows`: both along every session.
-/

namespace Dispatch

/-- A question to the catalog, and not to a scanner. -/
def Question.toCatalog : Question → Bool
  | describe _ | members _ => true
  | typesIn _ | findType _ => false

namespace Registry

variable {c : Catalog} {r r' r'' : Registry} {t u : TypeName}

/-! ### Growth -/

/-- Whatever `r` keeps, `r'` keeps unchanged. What is nested in a type is part of its
description. -/
structure Grows (r r' : Registry) : Prop where
  entry : ∀ {t e}, r.find? t = some e → ∃ e', r'.find? t = some e' ∧ e'.info = e.info ∧
    (∀ l, e.listing = some l → e'.listing = some l) ∧
      ∀ m, e.members = some m → e'.members = some m
  unknown : r.unknown <+: r'.unknown
  registrations : r.registrations <+: r'.registrations
  imports : r.imports <+: r'.imports
  asked : r.asked <+: r'.asked

namespace Grows

theorem refl (r : Registry) : r.Grows r where
  entry he := ⟨_, he, rfl, fun _ h => h, fun _ h => h⟩
  unknown := List.prefix_refl _
  registrations := List.prefix_refl _
  imports := List.prefix_refl _
  asked := List.prefix_refl _

theorem trans (h : r.Grows r') (h' : r'.Grows r'') : r.Grows r'' where
  entry he := by
    obtain ⟨e', he', hinfo, hlisting, hmembers⟩ := h.entry he
    obtain ⟨e'', he'', hinfo', hlisting', hmembers'⟩ := h'.entry he'
    exact ⟨e'', he'', hinfo'.trans hinfo, fun l hl => hlisting' l (hlisting l hl),
      fun m hm => hmembers' m (hmembers m hm)⟩
  unknown := h.unknown.trans h'.unknown
  registrations := h.registrations.trans h'.registrations
  imports := h.imports.trans h'.imports
  asked := h.asked.trans h'.asked

theorem knows (h : r.Grows r') (ht : r.Knows t) : r'.Knows t := by
  obtain ⟨e, he⟩ := Option.isSome_iff_exists.mp ht
  obtain ⟨e', he', -⟩ := h.entry he
  exact Option.isSome_iff_exists.mpr ⟨e', he'⟩

/-- A registration is not taken back. -/
theorem isRegistered (h : r.Grows r') (ht : r.isRegistered t = true) :
    r'.isRegistered t = true :=
  decide_eq_true (h.registrations.subset (of_decide_eq_true ht))

/-- Members that have been collected stay. -/
theorem isLoaded (h : r.Grows r') (ht : r.isLoaded t = true) : r'.isLoaded t = true := by
  obtain ⟨e, he, hloaded⟩ := (Option.any_eq_true _ _).mp ht
  obtain ⟨m, hm⟩ := Option.isSome_iff_exists.mp hloaded
  obtain ⟨e', he', -, -, hmembers⟩ := h.entry he
  exact (Option.any_eq_true _ _).mpr ⟨e', he', Option.isSome_of_eq_some (hmembers m hm)⟩

/-- A text that has been imported stays imported. -/
theorem wasImported (h : r.Grows r') {text : String} (ht : r.wasImported text = true) :
    r'.wasImported text = true :=
  decide_eq_true (h.imports.subset (of_decide_eq_true ht))

end Grows

/-- To log a question changes nothing else. -/
theorem grows_log (r : Registry) (q : Question) : r.Grows (r.log q) :=
  { Grows.refl r with entry := (Grows.refl r).entry, asked := List.prefix_append _ _ }

/-- An entry may be replaced by one that has all that it holds. -/
theorem grows_update {f : Entry → Entry}
    (hf : ∀ e, r.find? t = some e → (f e).info = e.info ∧
      (∀ l, e.listing = some l → (f e).listing = some l) ∧
        ∀ m, e.members = some m → (f e).members = some m) : r.Grows (r.update t f) := by
  refine { Grows.refl r with entry := fun {u e} he => ?_ }
  rw [find?_update, he]
  by_cases hu : u = t
  · subst hu
    exact ⟨f e, if_pos rfl, hf e he⟩
  · exact ⟨e, if_neg hu, rfl, fun _ h => h, fun _ h => h⟩

/-- A description is entered, or noted as missing, for a type that has not been met. -/
theorem grows_learn (c : Catalog) (r : Registry) (t : TypeName) : r.Grows (r.learn c t) := by
  rcases learn_cases c r t with ⟨-, heq⟩ | ⟨hnew, -, ⟨info, -, heq⟩ | ⟨-, heq⟩⟩
  · rw [heq]
    exact .refl r
  · rw [heq]
    refine { grows_log r (.describe t) with
      entry := fun {u e} he => ⟨e, ?_, rfl, fun _ h => h, fun _ h => h⟩ }
    have hne : u ≠ t := by
      rintro rfl
      simp [hnew] at he
    exact (Table.find?_insert r.entries t u _).trans ((if_neg hne).trans he)
  · rw [heq]
    exact { grows_log r (.describe t) with
      entry := (grows_log r (.describe t)).entry
      unknown := List.prefix_append _ _ }

/-- A listing is entered where there is none. -/
theorem grows_learnListing (c : Catalog) (r : Registry) (t : TypeName) :
    r.Grows (r.learnListing c t) := by
  rcases learnListing_cases c r t with ⟨-, heq⟩ | ⟨e, he, hlisting, heq⟩
  · rw [heq]
    exact .refl r
  · rw [heq]
    refine (grows_log r _).trans (grows_update fun e' he' => ⟨rfl, fun l hl => ?_, fun _ h => h⟩)
    obtain rfl : e = e' := Option.some.inj (he.symm.trans he')
    rw [hlisting] at hl
    cases hl

/-- A move loses and changes nothing. Members that are collected again are those that are kept
already, for both are what the catalog gives. -/
theorem Move.grows (h : Move c r r') (hr : c.Agrees r) : r.Grows r' := by
  cases h with
  | learn h =>
    cases h with
    | describe t => exact grows_learn c r t
    | list t => exact grows_learnListing c r t
    | keep hm =>
      exact grows_update fun _ he =>
        ⟨rfl, fun _ h => h, fun _ hm' => hm.symm.trans (hr.members he hm')⟩
    | scan | seek => exact grows_log r _
  | enroll _ =>
    exact { Grows.refl r with
      entry := (Grows.refl r).entry
      registrations := List.prefix_append _ _ }
  | remember =>
    exact { Grows.refl r with
      entry := (Grows.refl r).entry
      imports := List.prefix_append _ _ }

/-- A registry loses nothing, whatever is done with it. -/
theorem Moves.grows (h : r.Moves c r') (hr : c.Agrees r) : r.Grows r' := by
  induction h with
  | refl => exact .refl r
  | tail hmoves hmove ih => exact ih.trans (hmove.grows (hr.moves hmoves))

/-! ### The log of questions -/

/-- The registry holds the answer to a question. -/
def Answered (r : Registry) : Question → Prop
  | .describe t => r.Knows t ∨ t ∈ r.unknown
  | .members t => ∃ e l, r.find? t = some e ∧ e.listing = some l
  | .typesIn _ | .findType _ => False

/-- An answer that is held stays at hand. -/
theorem Grows.answered (h : r.Grows r') {q : Question} (hq : r.Answered q) : r'.Answered q := by
  cases q with
  | describe t => exact hq.imp h.knows fun ht => h.unknown.subset ht
  | members t =>
    obtain ⟨e, l, he, hl⟩ := hq
    obtain ⟨e', he', -, hlisting, -⟩ := h.entry he
    exact ⟨e', l, he', hlisting l hl⟩
  | typesIn | findType => exact hq

/-- A type that has been asked for is met, or noted as not described. -/
theorem answered_learn (c : Catalog) (r : Registry) (t : TypeName) :
    (r.learn c t).Answered (.describe t) := by
  rcases learn_cases c r t with ⟨hmet, heq⟩ | ⟨hnew, hunknown, ⟨info, hinfo, -⟩ | ⟨-, heq⟩⟩
  · rw [heq]
    exact hmet
  · left
    simp [Knows, find?_learn, hnew, hunknown, hinfo]
  · right
    rw [heq]
    exact List.mem_append_right _ List.mem_cons_self

/-- From `r` to `r'` nothing has been asked, or one question to which no answer was held, and the
answer of the catalog is held from then on. An entry arises only together with the question for
it. -/
def AsksOnce (r r' : Registry) : Prop :=
  (r'.asked = r.asked ∧ ∀ t, r'.Knows t → r.Knows t) ∨
    ∃ q, r'.asked = r.asked ++ [q] ∧ ¬ r.Answered q ∧ (q.toCatalog = true → r'.Answered q) ∧
      ∀ t, r'.Knows t → r.Knows t ∨ q = .describe t

/-- No type is met by changing an entry. -/
theorem knows_of_knows_update {f : Entry → Entry} (hu : (r.update t f).Knows u) : r.Knows u := by
  rw [Knows, find?_update] at hu
  split at hu
  · simpa [Knows] using hu
  · exact hu

/-- The description of a type is asked for when the type is new. -/
theorem asksOnce_learn (c : Catalog) (r : Registry) (t : TypeName) :
    r.AsksOnce (r.learn c t) := by
  rcases learn_cases c r t with ⟨-, heq⟩ | ⟨hnew, hunknown, hdesc⟩
  · rw [heq]
    exact .inl ⟨rfl, fun _ h => h⟩
  · have hnot : ¬ r.Answered (.describe t) := by
      rintro (ht | ht)
      · simp [Knows, hnew] at ht
      · exact hunknown ht
    refine .inr ⟨.describe t, ?_, hnot, fun _ => answered_learn c r t, fun u hu => ?_⟩
    · rcases hdesc with ⟨info, -, heq⟩ | ⟨-, heq⟩ <;> rw [heq] <;> rfl
    · by_cases hut : u = t
      · exact .inr (congrArg Question.describe hut.symm)
      · rw [Knows, find?_learn, if_neg fun h => hut h.1] at hu
        exact .inl hu

/-- The listing of a type is asked for when its entry has none. -/
theorem asksOnce_learnListing (c : Catalog) (r : Registry) (t : TypeName) :
    r.AsksOnce (r.learnListing c t) := by
  rcases learnListing_cases c r t with ⟨-, heq⟩ | ⟨e, he, hlisting, heq⟩
  · rw [heq]
    exact .inl ⟨rfl, fun _ h => h⟩
  · rw [heq]
    refine .inr ⟨.members t, rfl, ?_, fun _ => ?_, fun u hu => .inl (knows_of_knows_update hu)⟩
    · rintro ⟨e', l, he', hl⟩
      obtain rfl : e = e' := Option.some.inj (he.symm.trans he')
      rw [hlisting] at hl
      cases hl
    · exact ⟨_, c.members t, by rw [find?_update, if_pos rfl, find?_log, he]; rfl, rfl⟩

/-- A move asks one question at most. -/
theorem Move.asksOnce (h : Move c r r') : r.AsksOnce r' := by
  cases h with
  | learn h =>
    cases h with
    | describe t => exact asksOnce_learn c r t
    | list t => exact asksOnce_learnListing c r t
    | keep hm => exact .inl ⟨rfl, fun _ => knows_of_knows_update⟩
    | scan ns =>
      exact .inr ⟨.typesIn ns, rfl, id, fun h => absurd h Bool.false_ne_true, fun _ h => .inl h⟩
    | seek name =>
      exact .inr ⟨.findType name, rfl, id, fun h => absurd h Bool.false_ne_true, fun _ h => .inl h⟩
  | enroll _ | remember => exact .inl ⟨rfl, fun _ h => h⟩

/-- How the log of questions goes with what a registry keeps: questions to the catalog have been
answered and stand in it once, and the question for a listing comes after the one for the
description of the type. -/
structure Ledger (r : Registry) : Prop where
  answered : ∀ q ∈ r.asked, q.toCatalog = true → r.Answered q
  once : ∀ q, q.toCatalog = true → r.asked.count q ≤ 1
  described : ∀ t, r.Knows t → .describe t ∈ r.asked
  ordered : ∀ t, .members t ∈ r.asked → [.describe t, .members t].Sublist r.asked

theorem ledger_empty : Ledger {} where
  answered _ hq := nomatch hq
  once _ _ := Nat.zero_le 1
  described _ ht := nomatch ht
  ordered _ ht := nomatch ht

/-- Every question is asked only where its answer is missing, and the answer is kept with the log
entry. -/
theorem Ledger.move (h : r.Ledger) (hr : c.Agrees r) (hmove : Move c r r') : r'.Ledger := by
  have hgrows := hmove.grows hr
  rcases hmove.asksOnce with ⟨hasked, hknows⟩ | ⟨q, hasked, hnew, hnow, hknows⟩
  · exact {
      answered := fun p hp hcatalog => hgrows.answered (h.answered p (hasked ▸ hp) hcatalog)
      once := hasked ▸ h.once
      described := fun t ht => hasked ▸ h.described t (hknows t ht)
      ordered := hasked ▸ h.ordered }
  · have hdescribed : ∀ t, r'.Knows t → .describe t ∈ r'.asked := by
      intro t ht
      rw [hasked, List.mem_append, List.mem_singleton]
      exact (hknows t ht).imp (h.described t) Eq.symm
    refine ⟨fun p hp hcatalog => ?_, fun p hcatalog => ?_, hdescribed, fun t ht => ?_⟩
    · rw [hasked, List.mem_append, List.mem_singleton] at hp
      rcases hp with hp | rfl
      · exact hgrows.answered (h.answered p hp hcatalog)
      · exact hnow hcatalog
    · rw [hasked, List.count_append, List.count_singleton]
      by_cases hpq : q = p
      · -- what had been asked before would have been answered
        subst hpq
        have habsent : q ∉ r.asked := fun hq => hnew (h.answered q hq hcatalog)
        simp [List.count_eq_zero_of_not_mem habsent]
      · simpa [hpq] using h.once p hcatalog
    · rw [hasked, List.mem_append, List.mem_singleton] at ht
      rw [hasked]
      rcases ht with ht | rfl
      · exact (h.ordered t ht).trans (List.sublist_append_left _ _)
      · obtain ⟨e, l, he, -⟩ := hnow rfl
        have hmem := hdescribed t (Option.isSome_of_eq_some he)
        rw [hasked, List.mem_append, List.mem_singleton] at hmem
        have hbefore : .describe t ∈ r.asked := hmem.resolve_right fun h => nomatch h
        exact (List.singleton_sublist.mpr hbefore).append (List.Sublist.refl [Question.members t])

/-- The log goes with what is kept after any number of changes. -/
theorem Ledger.moves (h : r.Ledger) (hr : c.Agrees r) (hmoves : r.Moves c r') : r'.Ledger := by
  induction hmoves with
  | refl => exact h
  | tail hmoves hmove ih => exact ih.move (hr.moves hmoves) hmove

end Registry

namespace Dispatcher

variable {σ : Type}

/-- Along every session the catalog is asked at most once for the description of a type and at most
once for its listing, for the listing only after it has described the type; no type is both known
and unknown; and from one state to any later one nothing that is kept is lost or changed. -/
theorem asked_once_and_grows (d : Dispatcher σ) (host : σ) (steps later : List Step) :
    let r := (d.after steps (d.start host)).registry
    let r' := (d.after later (d.after steps (d.start host))).registry
    (∀ t, r.asked.count (.describe t) ≤ 1 ∧ r.asked.count (.members t) ≤ 1) ∧
      (∀ t, .members t ∈ r.asked → [.describe t, .members t].Sublist r.asked ∧
        ∃ info, d.catalog.describe t = some info) ∧
      (∀ t, ¬ (r.Knows t ∧ t ∈ r.unknown)) ∧
      r.Grows r' ∧
      ∀ t text, (r.isRegistered t = true → r'.isRegistered t = true) ∧
        (r.isLoaded t = true → r'.isLoaded t = true) ∧
        (r.wasImported text = true → r'.wasImported text = true) ∧
        (t ∈ r.unknown → t ∈ r'.unknown) := by
  intro r r'
  have hreached : d.Reached (d.after steps (d.start host)) := ⟨host, steps, rfl⟩
  have hagrees : d.catalog.Agrees r := hreached.agrees
  have hledger : r.Ledger :=
    Registry.ledger_empty.moves (Catalog.agrees_empty _) hreached.registry_moves
  have hgrows : r.Grows r' := (moves_after later hagrees).registry.grows hagrees
  refine ⟨fun t => ⟨hledger.once _ rfl, hledger.once _ rfl⟩, fun t ht => ?_, fun t ht => ?_, hgrows,
    fun t text => ⟨hgrows.isRegistered, hgrows.isLoaded, hgrows.wasImported,
      fun ht => hgrows.unknown.subset ht⟩⟩
  · obtain ⟨e, l, he, -⟩ := hledger.answered _ ht rfl
    exact ⟨hledger.ordered t ht, e.info, hagrees.info he⟩
  · obtain ⟨e, he⟩ := Option.isSome_iff_exists.mp ht.1
    have hdesc := hagrees.info he
    rw [hagrees.unknown ht.2] at hdesc
    cases hdesc

end Dispatcher

end Dispatch
