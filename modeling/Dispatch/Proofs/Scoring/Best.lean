import Dispatch.Proofs.Scoring.Meaning
import Mathlib.Data.List.Perm.Basic

/-!
# The earliest of the best

Of several overloads that accept the arguments, the one with the highest score is selected, and of
several with that score the first. So the score that wins does not depend on the order in which the
overloads stand, and neither does the overload, unless there is a tie.

* `Catalog.select?_eq_some_iff`, `Catalog.select?_eq_none_iff`: what is selected.
* `IsFirstBest.eq_of_perm`, `IsFirstBest.of_perm`: what is left of it in another order.
* `firstBest?_eq_foldl`: the selection in one pass, which keeps the best so far.
-/

namespace Dispatch

/-! ### The first best -/

/-- The overload `o` is accepted with score `n`; what stands before it is rejected or scores less,
and what stands after it is rejected or scores no more. -/
def IsFirstBest (score : Overload → Option Nat) (os : List Overload) (o : Overload) (n : Nat) :
    Prop :=
  ∃ before after, os = before ++ o :: after ∧ score o = some n ∧
    (∀ p ∈ before, ∀ m, score p = some m → m < n) ∧
    ∀ p ∈ after, ∀ m, score p = some m → m ≤ n

section FirstBest

variable {score : Overload → Option Nat} {os os' : List Overload} {o p : Overload} {m n : Nat}

theorem not_isFirstBest_nil : ¬ IsFirstBest score [] o n := by
  rintro ⟨before, after, hos, -⟩
  simp at hos

/-- The first best is the first of all, or the first best of the rest if that is better. -/
theorem isFirstBest_cons_iff :
    IsFirstBest score (p :: os) o n ↔
      (o = p ∧ score p = some n ∧ ∀ q ∈ os, ∀ m, score q = some m → m ≤ n) ∨
        ((∀ m, score p = some m → m < n) ∧ IsFirstBest score os o n) := by
  constructor
  · rintro ⟨before, after, hos, ho, hbefore, hafter⟩
    cases before with
    | nil =>
      obtain ⟨rfl, rfl⟩ := List.cons.inj hos
      exact .inl ⟨rfl, ho, hafter⟩
    | cons q before =>
      obtain ⟨rfl, rfl⟩ := List.cons.inj hos
      refine .inr ⟨hbefore p List.mem_cons_self, before, after, rfl, ho, fun q hq => ?_, hafter⟩
      exact hbefore q (List.mem_cons_of_mem _ hq)
  · rintro (⟨rfl, ho, hrest⟩ | ⟨hp, before, after, rfl, ho, hbefore, hafter⟩)
    · exact ⟨[], os, rfl, ho, by simp, hrest⟩
    · refine ⟨p :: before, after, rfl, ho, fun q hq => ?_, hafter⟩
      rcases List.mem_cons.mp hq with rfl | hq
      · exact hp
      · exact hbefore q hq

namespace IsFirstBest

theorem mem (h : IsFirstBest score os o n) : o ∈ os := by
  obtain ⟨before, after, rfl, -⟩ := h
  simp

theorem score_eq (h : IsFirstBest score os o n) : score o = some n := by
  obtain ⟨-, -, -, ho, -⟩ := h
  exact ho

/-- The score is the highest. -/
theorem le (h : IsFirstBest score os o n) (hp : p ∈ os) (hm : score p = some m) : m ≤ n := by
  obtain ⟨before, after, rfl, ho, hbefore, hafter⟩ := h
  rcases List.mem_append.mp hp with hp | hp
  · exact Nat.le_of_lt (hbefore p hp m hm)
  · rcases List.mem_cons.mp hp with rfl | hp
    · exact Nat.le_of_eq (Option.some.inj (hm.symm.trans ho))
    · exact hafter p hp m hm

/-- The highest score is the same in every order. -/
theorem eq_of_perm {o' : Overload} {n' : Nat} (h : IsFirstBest score os o n)
    (h' : IsFirstBest score os' o' n') (hperm : os.Perm os') : n = n' := by
  have hle : n ≤ n' := h'.le (hperm.subset h.mem) h.score_eq
  have hge : n' ≤ n := h.le (hperm.symm.subset h'.mem) h'.score_eq
  exact Nat.le_antisymm hle hge

/-- An overload that scores more than every other is the first best wherever it stands. -/
theorem of_lt (ho : o ∈ os) (hn : score o = some n)
    (hlt : ∀ p ∈ os, p ≠ o → ∀ m, score p = some m → m < n) : IsFirstBest score os o n := by
  obtain ⟨before, after, rfl, hfirst⟩ := List.eq_append_cons_of_mem ho
  refine ⟨before, after, rfl, hn, fun p hp m hm => ?_, fun p hp m hm => ?_⟩
  · exact hlt p (by simp [hp]) (fun heq => hfirst (heq ▸ hp)) m hm
  · by_cases hpo : p = o
    · exact Nat.le_of_eq (Option.some.inj (hm.symm.trans (hpo ▸ hn)))
    · exact Nat.le_of_lt (hlt p (by simp [hp]) hpo m hm)

/-- Without a tie the same overload is the first best in every order. -/
theorem of_perm (h : IsFirstBest score os o n) (hperm : os.Perm os')
    (htie : ∀ p ∈ os, score p = some n → p = o) : IsFirstBest score os' o n := by
  refine of_lt (hperm.subset h.mem) h.score_eq fun p hp hpo m hm => ?_
  have hos : p ∈ os := hperm.symm.subset hp
  have hne : m ≠ n := fun heq => hpo (htie p hos (heq ▸ hm))
  exact Nat.lt_of_le_of_ne (h.le hos hm) hne

end IsFirstBest

/-! ### Selection -/

/-- The selection finds the first overload of highest score, and nothing but it. -/
theorem firstBest?_eq_some_iff :
    firstBest? (os.map fun o => (o, score o)) = some (o, n) ↔ IsFirstBest score os o n := by
  induction os generalizing o n with
  | nil => simp [firstBest?, not_isFirstBest_nil]
  | cons p rest ih =>
    rw [List.map_cons, isFirstBest_cons_iff]
    cases hp : score p with
    | none => simp [firstBest?, ih]
    | some m =>
      simp only [firstBest?, Option.some.injEq, forall_eq']
      cases hbest : firstBest? (rest.map fun o => (o, score o)) with
      | none =>
        -- nothing after `p` is accepted
        have hrest : ∀ q ∈ rest, score q = none := by
          simpa [firstBest?_eq_none_iff] using hbest
        have hnot : ¬ IsFirstBest score rest o n := fun h => by
          rw [← ih, hbest] at h
          cases h
        simp only [hnot, and_false, or_false, Option.some.injEq, Prod.mk.injEq]
        constructor
        · rintro ⟨rfl, rfl⟩
          exact ⟨rfl, rfl, fun q hq k hk => by simp [hrest q hq] at hk⟩
        · rintro ⟨rfl, rfl, -⟩
          exact ⟨rfl, rfl⟩
      | some best =>
        have hfirst : IsFirstBest score rest best.1 best.2 := ih.mp hbest
        rw [← ih, hbest]
        by_cases hlt : m < best.2
        · simp only [if_pos hlt, Option.some.injEq]
          constructor
          · rintro rfl
            exact .inr ⟨hlt, rfl⟩
          · rintro (⟨-, rfl, hrest⟩ | ⟨-, hbest⟩)
            · exact absurd (hrest _ hfirst.mem _ hfirst.score_eq) (Nat.not_le.mpr hlt)
            · exact hbest
        · simp only [if_neg hlt, Option.some.injEq, Prod.mk.injEq]
          have hle : best.2 ≤ m := Nat.not_lt.mp hlt
          constructor
          · rintro ⟨rfl, rfl⟩
            exact .inl ⟨rfl, rfl, fun q hq k hk => Nat.le_trans (hfirst.le hq hk) hle⟩
          · rintro (⟨rfl, rfl, -⟩ | ⟨hmn, rfl⟩)
            · exact ⟨rfl, rfl⟩
            · exact absurd hmn (Nat.not_lt.mpr hle)

end FirstBest

/-- One pass from left to right: the best so far is replaced only by a better one. -/
def keepBetter (best : Option (Overload × Nat)) : Overload × Option Nat → Option (Overload × Nat)
  | (_, none) => best
  | (o, some s) => if best.all (·.2 < s) then some (o, s) else best

/-- The best of a pass that begins with a best so far. -/
theorem foldl_keepBetter (best : Option (Overload × Nat)) (l : List (Overload × Option Nat)) :
    l.foldl keepBetter best =
      match best, firstBest? l with
      | none, found => found
      | some b, none => some b
      | some b, some found => if b.2 < found.2 then some found else some b := by
  induction l generalizing best with
  | nil => cases best <;> rfl
  | cons p rest ih =>
    obtain ⟨o, _ | s⟩ := p
    · rw [List.foldl_cons, ih]
      rfl
    · rw [List.foldl_cons, ih, keepBetter, firstBest?]
      cases best with
      | none => cases firstBest? rest <;> simp
      | some b => cases firstBest? rest <;> grind

/-- The selection as a loop over the overloads with the best one so far, replaced only by a strictly
higher score. -/
theorem firstBest?_eq_foldl (l : List (Overload × Option Nat)) :
    firstBest? l = l.foldl keepBetter none :=
  (foldl_keepBetter none l).symm

namespace Catalog

variable {c : Catalog} {recast : Bool} {args : List Value} {os os' : List Overload}

theorem select?_eq_some_iff {o : Overload} {n : Nat} :
    c.select? recast args os = some (o, n) ↔ IsFirstBest (c.score? recast args) os o n :=
  firstBest?_eq_some_iff

/-- Nothing is selected exactly where every overload is refused. -/
theorem select?_eq_none_iff :
    c.select? recast args os = none ↔ ∀ o ∈ os, c.score? recast args o = none := by
  simp [select?, firstBest?_eq_none_iff]

theorem isSome_select?_iff :
    (c.select? recast args os).isSome = true ↔
      ∃ o ∈ os, (c.score? recast args o).isSome = true := by
  rw [← not_iff_not, Bool.not_eq_true, Option.isSome_eq_false_iff, Option.isNone_iff_eq_none,
    select?_eq_none_iff]
  simp

/-- The winning score does not depend on the order. -/
theorem map_select?_eq_of_perm (hperm : os.Perm os') :
    (c.select? recast args os').map (·.2) = (c.select? recast args os).map (·.2) := by
  cases h : c.select? recast args os with
  | none =>
    have hnone : c.select? recast args os' = none := by
      refine select?_eq_none_iff.mpr fun o ho => ?_
      exact select?_eq_none_iff.mp h o (hperm.symm.subset ho)
    rw [hnone]
  | some best =>
    cases h' : c.select? recast args os' with
    | none =>
      have hfirst := select?_eq_some_iff.mp h
      have hrejected := select?_eq_none_iff.mp h' best.1 (hperm.subset hfirst.mem)
      rw [hfirst.score_eq] at hrejected
      cases hrejected
    | some best' =>
      have heq : best.2 = best'.2 :=
        (select?_eq_some_iff.mp h).eq_of_perm (select?_eq_some_iff.mp h') hperm
      rw [Option.map_some, Option.map_some, heq]

/-- The order of the overloads matters for ties alone. -/
theorem select?_eq_some_of_perm {o : Overload} {n : Nat} (hperm : os.Perm os')
    (h : c.select? recast args os = some (o, n))
    (htie : ∀ p ∈ os, c.score? recast args p = some n → p = o) :
    c.select? recast args os' = some (o, n) :=
  select?_eq_some_iff.mpr ((select?_eq_some_iff.mp h).of_perm hperm htie)

end Catalog

end Dispatch
