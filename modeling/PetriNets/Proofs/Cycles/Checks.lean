import Mathlib.Data.List.Pairwise
import Mathlib.Data.Prod.Lex
import Mathlib.Order.Bounds.Basic
import PetriNets.Cycles.Search
import PetriNets.Document.System
import PetriNets.Proofs.Cycles.Canonical
import PetriNets.Proofs.Except
import PetriNets.Proofs.FirstOccurrences
import PetriNets.Proofs.OrderedList
import PetriNets.Proofs.Parikh

/-!
# Checks of Parikh vectors

A check goes through the pairs of cycles in lexicographic order and stops at the first one whose vectors it
does not allow (`exists_firstHoldsAt`). It looks at the cycles alone, and these stay as they are, so what has
been checked before makes no difference (`SmallestCycles.perform_afterChecks`).

Whether a check succeeds is a matter of the set of vectors (`SmallestCycles.perform_eq_true_iff`), since a
vector is allowed together with itself, and two vectors are in both orders. This is not to be seen from how
they are compared: only the labels of one vector are looked up in the other. For the vectors of cycles that
were found it makes no difference, as they store no zero (`TransitionSystem.reduced_of_mem`).
-/

namespace PetriNets

/-! ## The first pair that passes a test -/

section FirstPair

variable {α : Type} {R : α → α → Prop} {test : α → α → Bool} {x a b : α} {xs : List α} {i j : ℕ}

/-- A relation holds between the items at two places of a list, the first one before the second one. -/
def HoldsAt (R : α → α → Prop) (xs : List α) (i j : ℕ) : Prop :=
  i < j ∧ ∃ a b, xs[i]? = some a ∧ xs[j]? = some b ∧ R a b

/-- The places are the first ones of this kind, in lexicographic order. -/
def FirstHoldsAt (R : α → α → Prop) (xs : List α) (i j : ℕ) : Prop :=
  IsLeast {p : ℕ ×ₗ ℕ | HoldsAt R xs (ofLex p).1 (ofLex p).2} (toLex (i, j))

theorem firstHoldsAt_iff : FirstHoldsAt R xs i j ↔
    HoldsAt R xs i j ∧ ∀ k l, HoldsAt R xs k l → i < k ∨ i = k ∧ j ≤ l := by
  unfold FirstHoldsAt IsLeast
  refine and_congr_right fun _ => ?_
  constructor
  · intro hleast k l h
    exact Prod.Lex.toLex_le_toLex.1 (hleast (show toLex (k, l) ∈ _ from h))
  · intro hleast p h
    exact Prod.Lex.le_iff.2 (hleast _ _ h)

theorem holdsAt_cons_zero_iff :
    HoldsAt R (x :: xs) 0 j ↔ ∃ l, j = l + 1 ∧ ∃ b, xs[l]? = some b ∧ R x b := by
  cases j <;> simp [HoldsAt]

theorem holdsAt_cons_succ_iff :
    HoldsAt R (x :: xs) (i + 1) j ↔ ∃ l, j = l + 1 ∧ HoldsAt R xs i l := by
  cases j <;> simp [HoldsAt]

theorem firstHoldsAt_congr {S : α → α → Prop} (h : ∀ a ∈ xs, ∀ b ∈ xs, R a b ↔ S a b) :
    FirstHoldsAt R xs i j ↔ FirstHoldsAt S xs i j := by
  have hholds : ∀ k l, HoldsAt R xs k l ↔ HoldsAt S xs k l := by
    intro k l
    refine and_congr_right fun _ => exists₂_congr fun a b => and_congr_right fun ha =>
      and_congr_right fun hb => ?_
    exact h a (List.mem_of_getElem? ha) b (List.mem_of_getElem? hb)
  simp only [firstHoldsAt_iff, hholds]

theorem firstHoldsAt_cons_zero (hb : xs[j]? = some b) (hR : R x b)
    (hbefore : ∀ l < j, ∀ b, xs[l]? = some b → ¬ R x b) : FirstHoldsAt R (x :: xs) 0 (j + 1) := by
  refine firstHoldsAt_iff.2 ⟨holdsAt_cons_zero_iff.2 ⟨j, rfl, b, hb, hR⟩, fun k l hkl => ?_⟩
  cases k with
  | zero =>
    obtain ⟨l, rfl, c, hc, hholds⟩ := holdsAt_cons_zero_iff.1 hkl
    have hle : j ≤ l := Nat.le_of_not_lt fun hlt => hbefore l hlt c hc hholds
    omega
  | succ k => omega

/-- Where the relation does not hold between the first item and any other. -/
theorem FirstHoldsAt.cons_succ (h : FirstHoldsAt R xs i j) (hnone : ∀ b ∈ xs, ¬ R x b) :
    FirstHoldsAt R (x :: xs) (i + 1) (j + 1) := by
  obtain ⟨hholds, hleast⟩ := firstHoldsAt_iff.1 h
  refine firstHoldsAt_iff.2 ⟨holdsAt_cons_succ_iff.2 ⟨j, rfl, hholds⟩, fun k l hkl => ?_⟩
  cases k with
  | zero =>
    obtain ⟨l, rfl, b, hb, hR⟩ := holdsAt_cons_zero_iff.1 hkl
    exact absurd hR (hnone b (List.mem_of_getElem? hb))
  | succ k =>
    obtain ⟨l, rfl, hrest⟩ := holdsAt_cons_succ_iff.1 hkl
    have hle := hleast k l hrest
    omega

theorem firstPair_eq_none_iff :
    firstPair test xs = none ↔ xs.Pairwise fun a b => test a b = false := by
  induction xs with
  | nil => simp [firstPair]
  | cons x xs ih =>
    rw [firstPair, List.pairwise_cons]
    cases hfind : xs.find? (test x) with
    | none =>
      have hnone : ∀ b ∈ xs, test x b = false := by simpa using hfind
      exact ih.trans (and_iff_right hnone).symm
    | some b =>
      have htest := List.find?_some hfind
      have hb := List.mem_of_find?_eq_some hfind
      simp only [reduceCtorEq, false_iff, not_and]
      intro hnone
      rw [hnone b hb] at htest
      cases htest

theorem exists_firstHoldsAt (h : firstPair test xs = some (a, b)) : ∃ i j, xs[i]? = some a ∧
    xs[j]? = some b ∧ FirstHoldsAt (fun a b => test a b = true) xs i j := by
  induction xs with
  | nil => cases h
  | cons x xs ih =>
    rw [firstPair] at h
    cases hfind : xs.find? (test x) with
    | none =>
      rw [hfind] at h
      obtain ⟨i, j, hi, hj, hfirst⟩ := ih h
      exact ⟨i + 1, j + 1, hi, hj, hfirst.cons_succ (List.find?_eq_none.1 hfind)⟩
    | some c =>
      rw [hfind] at h
      cases h
      obtain ⟨htest, j, hj, rfl, hbefore⟩ := List.find?_eq_some_iff_getElem.1 hfind
      have hget : xs[j]? = some xs[j] := List.getElem?_eq_getElem hj
      refine ⟨0, j + 1, rfl, hget, firstHoldsAt_cons_zero hget htest fun l hl b hb htest => ?_⟩
      obtain ⟨_, rfl⟩ := List.getElem?_eq_some_iff.1 hb
      have hnot := hbefore l hl
      simp [htest] at hnot

end FirstPair

/-! ## The checks -/

/-- The checks that there are. -/
inductive CycleCheck where
  /-- All vectors are the same. -/
  | same
  /-- Any two vectors are the same or share no label. -/
  | sameOrDisjoint

namespace CycleCheck

/-- A call of the check: what it gives, and what the cycles are then. -/
def perform : CycleCheck → SmallestCycles → Bool × SmallestCycles
  | same => SmallestCycles.checkSame
  | sameOrDisjoint => SmallestCycles.checkSameOrDisjoint

/-- What the check asks of two vectors. -/
def Allows : CycleCheck → ParikhVector → ParikhVector → Prop
  | same, v, w => v = w
  | sameOrDisjoint, v, w => v = w ∨ ¬ ∃ l, l ∈ v.labels ∧ l ∈ w.labels

instance (check : CycleCheck) : Std.Refl check.Allows where
  refl v := by
    cases check with
    | same => exact rfl
    | sameOrDisjoint => exact .inl rfl

instance (check : CycleCheck) : Std.Symm check.Allows where
  symm v w h := by
    cases check with
    | same => exact Eq.symm h
    | sameOrDisjoint =>
      refine h.imp Eq.symm fun hnone hshared => hnone ?_
      obtain ⟨l, hw, hv⟩ := hshared
      exact ⟨l, hv, hw⟩

/-- The test by which the check compares two vectors. -/
def test : CycleCheck → ParikhVector → ParikhVector → Bool
  | same, v, w => v = w
  | sameOrDisjoint, v, w => v = w || v.isDisjoint w

theorem test_eq_true_iff (check : CycleCheck) (v : ParikhVector) {w : ParikhVector} (hw : w.Reduced) :
    check.test v w = true ↔ check.Allows v w := by
  cases check with
  | same => exact decide_eq_true_iff
  | sameOrDisjoint => simp [test, Allows, hw.isDisjoint_iff_not_mem]

theorem perform_eq (check : CycleCheck) : check.perform = SmallestCycles.check check.test := by
  cases check <;> rfl

end CycleCheck

namespace SmallestCycles

variable {s s' : SmallestCycles} {check : CycleCheck} {v : ParikhVector}

/-- The cycles after some checks, one after the other. -/
def afterChecks (s : SmallestCycles) (checks : List CycleCheck) : SmallestCycles :=
  checks.foldl (fun s check => (check.perform s).2) s

theorem perform_congr (check : CycleCheck) (h : s.cycles = s'.cycles) :
    check.perform s = check.perform s' := by
  rw [check.perform_eq]
  unfold SmallestCycles.check
  rw [h]

theorem cycles_perform (check : CycleCheck) (s : SmallestCycles) :
    (check.perform s).2.cycles = s.cycles := by
  rw [check.perform_eq]
  rfl

theorem cycles_afterChecks (s : SmallestCycles) (checks : List CycleCheck) :
    (s.afterChecks checks).cycles = s.cycles := by
  induction checks generalizing s with
  | nil => rfl
  | cons check checks ih => exact (ih (check.perform s).2).trans (cycles_perform check s)

theorem perform_afterChecks (s : SmallestCycles) (checks : List CycleCheck) (check : CycleCheck) :
    check.perform (s.afterChecks checks) = check.perform s :=
  perform_congr check (cycles_afterChecks s checks)

/-- A check succeeds if it leaves no counterexample. -/
theorem perform_fst (check : CycleCheck) (s : SmallestCycles) :
    (check.perform s).1 = (check.perform s).2.counterExample.isNone := by
  rw [check.perform_eq]
  rfl

theorem mem_parikhVectors_iff : v ∈ s.parikhVectors ↔ v ∈ s.cycles.map Cycle.parikh := by
  unfold parikhVectors orderedOfList
  rw [mem_foldl_insertOrdered_iff]
  simp

theorem nodup_parikhVectors (s : SmallestCycles) : s.parikhVectors.Nodup := by
  have hascending : Ascending ParikhVector.compare s.parikhVectors :=
    Ascending.foldl_insertOrdered List.Pairwise.nil
  exact hascending.nodup

section Outcome

variable (hreduced : ∀ c ∈ s.cycles, c.parikh.Reduced)
include hreduced

/-- Whether a check succeeds depends on the set of vectors alone. -/
theorem perform_eq_true_iff (check : CycleCheck) : (check.perform s).1 = true ↔
    ∀ v ∈ s.parikhVectors, ∀ w ∈ s.parikhVectors, check.Allows v w := by
  have hpairs : (check.perform s).1 = true ↔ (s.cycles.map Cycle.parikh).Pairwise check.Allows := by
    rw [check.perform_eq, List.pairwise_map]
    unfold SmallestCycles.check
    rw [Option.isNone_iff_eq_none, firstPair_eq_none_iff]
    refine List.Pairwise.iff_of_mem fun {c d} _ hd => ?_
    rw [Bool.not_eq_false', check.test_eq_true_iff c.parikh (hreduced d hd)]
  rw [hpairs]
  simp only [mem_parikhVectors_iff]
  constructor
  · intro hall v hv w hw
    exact hall.forall_of_forall (fun v _ => Std.Refl.refl v) hv hw
  · intro hall
    exact List.pairwise_of_reflexive_of_forall_ne fun v hv w hw _ => hall v hv w hw

/-- The counterexample is the first pair of cycles with vectors that the check does not allow. -/
theorem exists_counterExample (hfails : (check.perform s).1 = false) : ∃ i j c d,
    s.cycles[i]? = some c ∧ s.cycles[j]? = some d ∧ (check.perform s).2.counterExample = some (c, d) ∧
      FirstHoldsAt (fun c d => ¬ check.Allows c.parikh d.parikh) s.cycles i j := by
  rw [perform_fst, Option.isNone_eq_false_iff] at hfails
  obtain ⟨⟨c, d⟩, hpair⟩ := Option.isSome_iff_exists.1 hfails
  have hfirst := hpair
  rw [check.perform_eq] at hfirst
  obtain ⟨i, j, hi, hj, hfirst⟩ := exists_firstHoldsAt hfirst
  refine ⟨i, j, c, d, hi, hj, hpair, (firstHoldsAt_congr fun c _ d hd => ?_).1 hfirst⟩
  rw [← check.test_eq_true_iff c.parikh (hreduced d hd)]
  simp

theorem checkSame_eq_true_iff : s.checkSame.1 = true ↔ s.parikhVectors.length ≤ 1 := by
  rw [length_le_one_iff (nodup_parikhVectors s)]
  exact perform_eq_true_iff hreduced .same

theorem checkSameOrDisjoint_eq_true_iff : s.checkSameOrDisjoint.1 = true ↔
    ∀ v ∈ s.parikhVectors, ∀ w ∈ s.parikhVectors, v ≠ w → ¬ ∃ l, l ∈ v.labels ∧ l ∈ w.labels := by
  refine (perform_eq_true_iff hreduced .sameOrDisjoint).trans ?_
  simp only [CycleCheck.Allows, or_iff_not_imp_left, ne_eq]

theorem checkSameOrDisjoint_of_checkSame (h : s.checkSame.1 = true) :
    s.checkSameOrDisjoint.1 = true := by
  have hsame := (perform_eq_true_iff hreduced .same).1 h
  exact (perform_eq_true_iff hreduced .sameOrDisjoint).2 fun v hv w hw =>
    .inl (hsame v hv w hw)

end Outcome

end SmallestCycles

/-! ## Cycles that were found -/

namespace TransitionSystem

variable {ts : TransitionSystem} {components : List (List String)} {mode : CycleMode} {v : String}
  {starts : List String} {rounds rest : Nat} {found cycles : List Cycle} {c : Cycle}

theorem exists_ofSteps_of_cyclesThrough
    (h : ts.cyclesThrough components v rounds = some (cycles, rest)) (hc : c ∈ cycles) :
    ∃ steps, c = .ofSteps steps := by
  unfold cyclesThrough at h
  split at h
  · cases h
    cases hc
  · dsimp only at h
    split at h
    · obtain ⟨⟨s, left⟩, -, hcycles⟩ := Option.bind_eq_some_iff.1 h
      cases hcycles
      obtain ⟨steps, -, rfl⟩ := List.mem_map.1 hc
      exact ⟨steps, rfl⟩
    · cases h
      cases hc

theorem exists_ofSteps_of_cyclesFrom
    (h : ts.cyclesFrom components starts rounds found = some cycles)
    (hfound : ∀ c ∈ found, ∃ steps, c = .ofSteps steps) : ∀ c ∈ cycles, ∃ steps, c = .ofSteps steps := by
  induction starts generalizing rounds found with
  | nil =>
    cases h
    exact hfound
  | cons start starts ih =>
    cases rounds with
    | zero => cases h
    | succ rounds =>
      obtain ⟨⟨through, rest⟩, hthrough, hfrom⟩ := Option.bind_eq_some_iff.1 h
      refine ih hfrom fun c hc => ?_
      rcases mem_foldl_insertOrdered_iff.1 hc with hc | hc
      · exact hfound c hc
      · exact exists_ofSteps_of_cyclesThrough hthrough hc

/-- The vectors of cycles that were found are counted from their labels. -/
theorem reduced_of_mem {s : SmallestCycles} (h : smallestCyclesBy components rounds ts mode = .ok s) :
    ∀ c ∈ s.cycles, c.parikh.Reduced := by
  obtain ⟨starts, -, hfrom⟩ := bind_eq_ok_iff.1 h
  intro c hc
  split at hfrom
  · next cycles hcycles =>
    cases hfrom
    obtain ⟨steps, rfl⟩ := exists_ofSteps_of_cyclesFrom hcycles (by simp) c hc
    exact ParikhVector.reduced_ofSequence _
  · cases hfrom

/-- However often the cycles that were found have been checked, they are the same, and each check gives what
it gives at first. All vectors are the same if there is one at most; they are the same or disjoint if no label
is in two of them; and the first implies the second. A check that succeeds leaves no counterexample. Otherwise
it leaves the first pair of cycles, in lexicographic order of their places, that it does not allow. -/
theorem cycleChecks_exact {s : SmallestCycles}
    (h : smallestCyclesBy components rounds ts mode = .ok s) :
    (∀ checks, (s.afterChecks checks).cycles = s.cycles ∧
      ∀ check : CycleCheck, check.perform (s.afterChecks checks) = check.perform s) ∧
    (s.checkSame.1 = true ↔ s.parikhVectors.length ≤ 1) ∧
    (s.checkSameOrDisjoint.1 = true ↔
      ∀ v ∈ s.parikhVectors, ∀ w ∈ s.parikhVectors, v ≠ w → ¬ ∃ l, l ∈ v.labels ∧ l ∈ w.labels) ∧
    (s.checkSame.1 = true → s.checkSameOrDisjoint.1 = true) ∧
    ∀ check : CycleCheck,
      ((check.perform s).1 = true → (check.perform s).2.counterExample = none) ∧
      ((check.perform s).1 = false → ∃ i j c d, s.cycles[i]? = some c ∧ s.cycles[j]? = some d ∧
        (check.perform s).2.counterExample = some (c, d) ∧
        FirstHoldsAt (fun c d => ¬ check.Allows c.parikh d.parikh) s.cycles i j) := by
  have hreduced := reduced_of_mem h
  refine ⟨fun checks => ⟨s.cycles_afterChecks checks, fun check => s.perform_afterChecks checks check⟩,
    SmallestCycles.checkSame_eq_true_iff hreduced,
    SmallestCycles.checkSameOrDisjoint_eq_true_iff hreduced,
    SmallestCycles.checkSameOrDisjoint_of_checkSame hreduced, fun check => ⟨fun hok => ?_, ?_⟩⟩
  · rwa [SmallestCycles.perform_fst, Option.isNone_iff_eq_none] at hok
  · exact SmallestCycles.exists_counterExample hreduced

/-- Two bells that ring alike and one that is struck. -/
def bellsDocument : SystemDocument where
  name := "bells"
  states := [⟨"north", ∅⟩, ⟨"south", ∅⟩, ⟨"tower", ∅⟩]
  arcs := [⟨"tower", "tower", "strike", ∅⟩, ⟨"south", "south", "ring", ∅⟩,
    ⟨"north", "north", "ring", ∅⟩]
  initial := none
  extensions := ∅

/-- The first and the third bell differ, and nothing of it is left once they were found to be disjoint. -/
theorem cycleChecks_exact_bellsDocument : ∃ ts s, bellsDocument.toSystem = .ok ts ∧
    ts.smallestCycles .allStates = .ok s ∧ s.cycles.length = 3 ∧ ¬ s.parikhVectors.length ≤ 1 ∧
    (∃ i j, s.cycles[i]? = some (.ofSteps [("north", "ring")]) ∧
      s.cycles[j]? = some (.ofSteps [("tower", "strike")]) ∧
      FirstHoldsAt (fun c d => ¬ c.parikh = d.parikh) s.cycles i j) ∧
    (s.afterChecks [.same]).checkSameOrDisjoint.1 = true ∧
    (s.afterChecks [.same]).checkSameOrDisjoint.2.counterExample = none := by
  have hbells : ∃ ts s, bellsDocument.toSystem = .ok ts ∧ ts.smallestCycles .allStates = .ok s ∧
      s.cycles.length = 3 ∧ s.checkSame.1 = false ∧ s.checkSameOrDisjoint.1 = true ∧
      s.checkSame.2.counterExample =
        some (.ofSteps [("north", "ring")], .ofSteps [("tower", "strike")]) :=
    ⟨_, _, rfl, rfl, by decide +kernel⟩
  obtain ⟨ts, s, hts, hcycles, hlength, hdiffer, hdisjoint, hpair⟩ := hbells
  obtain ⟨hagain, hsame, -, -, hleft⟩ := cycleChecks_exact hcycles
  have hlater : (s.afterChecks [.same]).checkSameOrDisjoint = s.checkSameOrDisjoint :=
    (hagain [.same]).2 .sameOrDisjoint
  refine ⟨ts, s, hts, hcycles, hlength, ?_, ?_, ?_, ?_⟩
  · rw [← hsame, hdiffer]
    exact nofun
  · obtain ⟨i, j, c, d, hi, hj, hcd, hfirst⟩ := (hleft .same).2 hdiffer
    obtain ⟨rfl, rfl⟩ := Prod.mk.inj (Option.some.inj (hcd.symm.trans hpair))
    exact ⟨i, j, hi, hj, hfirst⟩
  · rw [hlater]
    exact hdisjoint
  · rw [hlater]
    exact (hleft .sameOrDisjoint).1 hdisjoint

end TransitionSystem

end PetriNets
