import Mathlib.Data.List.Lex
import Mathlib.Data.List.Rotate
import Mathlib.Data.Prod.Lex
import Mathlib.Data.String.Basic
import PetriNets.Cycles.Basic
import PetriNets.Proofs.Parikh.Sequences

/-!
# The one form of a cycle

Walks, counts and cycles are compared entry by entry, which gives linear orders; for walks it is the
lexicographic one (`isLE_compareWalks_iff`). So among the rotations of a closed walk there is one that is
least, whichever rotation they are the rotations of, and it is the one from which a cycle is made
(`isCanonical_iff`). It stands in the cycle step by step, so a cycle tells of which walks it is made: of all
the rotations of one (`Cycle.ofSteps_canonical`).
-/

namespace PetriNets

section Orders

variable {α β : Type} {cmp : α → α → Ordering}

/-- Comparing by what a function gives. -/
theorem transCmp_of_map [Std.TransCmp cmp] (f : β → α) : Std.TransCmp fun a b => cmp (f a) (f b) where
  eq_swap := Std.OrientedCmp.eq_swap
  isLE_trans := Std.TransCmp.isLE_trans

theorem lawfulEqCmp_of_injective [Std.LawfulEqCmp cmp] {f : β → α} (hf : f.Injective) :
    Std.LawfulEqCmp fun a b => cmp (f a) (f b) where
  compare_self := Std.ReflCmp.compare_self
  eq_of_compare h := hf (Std.LawfulEqCmp.eq_of_compare h)

/-- Comparing pairs, the first components first. -/
theorem lawfulEqCmp_pairs [Ord α] [Std.LawfulEqOrd α] [Ord β] [Std.LawfulEqOrd β] :
    Std.LawfulEqCmp (compareLex (compareOn (Prod.fst : α × β → α)) (compareOn Prod.snd)) where
  compare_self := compareLex_eq_eq.2 ⟨Std.ReflCmp.compare_self, Std.ReflCmp.compare_self⟩
  eq_of_compare h := by
    obtain ⟨hfst, hsnd⟩ := compareLex_eq_eq.1 h
    exact Prod.ext (Std.LawfulEqCmp.eq_of_compare hfst) (Std.LawfulEqCmp.eq_of_compare hsnd)

instance : Std.TransCmp compareSteps :=
  inferInstanceAs (Std.TransCmp (compareLex (compareOn Prod.fst) (compareOn Prod.snd)))

instance : Std.LawfulEqCmp compareSteps := lawfulEqCmp_pairs

instance : Std.TransCmp compareWalks := inferInstanceAs (Std.TransCmp (List.compareLex compareSteps))

instance : Std.LawfulEqCmp compareWalks :=
  inferInstanceAs (Std.LawfulEqCmp (List.compareLex compareSteps))

theorem ParikhVector.entries_injective : Function.Injective ParikhVector.entries := by
  rintro ⟨m⟩ ⟨n⟩ h
  exact congrArg ParikhVector.mk (OrderedMap.ext h)

instance : Std.TransCmp ParikhVector.compare := transCmp_of_map ParikhVector.entries

instance : Std.LawfulEqCmp ParikhVector.compare :=
  have : Std.LawfulEqCmp (compareLex (compareOn Prod.fst) (compareOn Prod.snd) :
    String × Nat → String × Nat → Ordering) := lawfulEqCmp_pairs
  lawfulEqCmp_of_injective (f := ParikhVector.entries) ParikhVector.entries_injective

instance : Std.TransCmp Cycle.compare :=
  have : Std.TransCmp fun c d : Cycle => c.parikh.compare d.parikh := transCmp_of_map Cycle.parikh
  inferInstanceAs (Std.TransCmp (compareLex (compareOn Cycle.states)
    (compareLex (compareOn Cycle.labels) fun c d => c.parikh.compare d.parikh)))

instance : Std.LawfulEqCmp Cycle.compare where
  compare_self := by simp [Cycle.compare, Std.ReflCmp.compare_self]
  eq_of_compare {c d} h := by
    obtain ⟨hstates, hrest⟩ := Ordering.then_eq_eq.1 h
    obtain ⟨hlabels, hparikh⟩ := Ordering.then_eq_eq.1 hrest
    obtain ⟨states, labels, parikh⟩ := c
    obtain rfl := Std.LawfulEqCmp.eq_of_compare hstates
    obtain rfl := Std.LawfulEqCmp.eq_of_compare hlabels
    obtain rfl := Std.LawfulEqCmp.eq_of_compare hparikh
    rfl

end Orders

/-! ## The least rotation -/

variable {steps others r : List WalkStep} {c : Cycle}

/-- A cycle that stands for a closed walk: it has its states, its labels and the counts of these, from
the step on where the list of the steps is least. -/
def IsCanonical (c : Cycle) (steps : List WalkStep) : Prop :=
  ∃ least, steps ~r least ∧ (∀ r, steps ~r r → (compareWalks least r).isLE) ∧
    c = ⟨least.map Prod.fst, least.map Prod.snd, .ofSequence (least.map Prod.snd)⟩

/-- Walks that can be turned into each other have the same cycle. -/
theorem IsCanonical.of_isRotated (h : IsCanonical c steps) (hrotated : steps ~r others) :
    IsCanonical c others := by
  obtain ⟨least, hleast, hmin, hc⟩ := h
  exact ⟨least, hrotated.symm.trans hleast, fun r hr => hmin r (hrotated.trans hr), hc⟩

theorem mem_rotations_iff (hne : steps ≠ []) : r ∈ rotations steps ↔ steps ~r r := by
  unfold rotations
  rw [List.mem_map]
  constructor
  · rintro ⟨k, hk, rfl⟩
    have hle := Nat.le_of_lt (List.mem_range.1 hk)
    exact ⟨k, List.rotate_eq_drop_append_take hle⟩
  · rintro ⟨n, rfl⟩
    have hlt := Nat.mod_lt n (List.length_pos_of_ne_nil hne)
    exact ⟨n % steps.length, List.mem_range.2 hlt, List.rotate_eq_drop_append_take_mod.symm⟩

theorem lesser_spec (a b : List WalkStep) :
    let lesser := if compareWalks b a = .lt then b else a
    lesser ∈ [a, b] ∧ (compareWalks lesser a).isLE ∧ (compareWalks lesser b).isLE := by
  dsimp only
  split
  · next hlt => exact ⟨by simp, Ordering.isLE_of_eq_lt hlt, Std.ReflCmp.isLE_rfl⟩
  · next hnlt =>
    have hge := Ordering.isGE_iff_ne_lt.2 hnlt
    exact ⟨by simp, Std.ReflCmp.isLE_rfl, Std.OrientedCmp.isGE_iff_isLE.1 hge⟩

/-- The fold that looks for the least of some walks. -/
theorem foldl_least (walks : List (List WalkStep)) (start : List WalkStep) :
    let least := walks.foldl (fun best r => if compareWalks r best = .lt then r else best) start
    least ∈ start :: walks ∧ ∀ r ∈ start :: walks, (compareWalks least r).isLE := by
  induction walks generalizing start with
  | nil => simp [Std.ReflCmp.compare_self]
  | cons w walks ih =>
    rw [List.foldl_cons]
    obtain ⟨hbest, hstart, hw⟩ := lesser_spec start w
    generalize (if compareWalks w start = .lt then w else start) = best at hstart hw hbest ⊢
    obtain ⟨hmem, hleast⟩ := ih best
    refine ⟨?_, fun r hr => ?_⟩
    · rcases List.mem_cons.1 hmem with heq | hmem
      · rw [heq]
        exact List.mem_append_left walks hbest
      · exact List.mem_cons_of_mem _ (List.mem_cons_of_mem _ hmem)
    · have hle := hleast best List.mem_cons_self
      rcases List.mem_cons.1 hr with rfl | hr
      · exact Std.TransCmp.isLE_trans hle hstart
      · rcases List.mem_cons.1 hr with rfl | hr
        · exact Std.TransCmp.isLE_trans hle hw
        · exact hleast r (List.mem_cons_of_mem _ hr)

theorem leastRotation_spec (steps : List WalkStep) : steps ~r leastRotation steps ∧
    ∀ r, steps ~r r → (compareWalks (leastRotation steps) r).isLE := by
  by_cases hne : steps = []
  · subst hne
    refine ⟨.refl _, fun r hr => ?_⟩
    obtain rfl := List.isRotated_nil_iff'.1 hr
    rfl
  · obtain ⟨hmem, hleast⟩ := foldl_least (rotations steps) steps
    refine ⟨?_, fun r hr => hleast r (List.mem_cons_of_mem _ ((mem_rotations_iff hne).2 hr))⟩
    rcases List.mem_cons.1 hmem with heq | hmem
    · unfold leastRotation
      rw [heq]
    · exact (mem_rotations_iff hne).1 hmem

/-- What is made of a closed walk stands for it, and nothing else does. -/
theorem isCanonical_iff : IsCanonical c steps ↔ c = Cycle.ofSteps steps := by
  obtain ⟨hrotated, hmin⟩ := leastRotation_spec steps
  constructor
  · rintro ⟨least, hleast, hle, rfl⟩
    have heq := Std.OrientedCmp.isLE_antisymm (hle _ hrotated) (hmin _ hleast)
    obtain rfl := Std.LawfulEqCmp.eq_of_compare heq
    rfl
  · rintro rfl
    exact ⟨leastRotation steps, hrotated, hmin, rfl⟩

/-! ## The lexicographic order -/

theorem compareText_eq_lt_iff {s t : String} : compare s t = .lt ↔ s < t := compareOfLessAndEq_eq_lt

theorem compareSteps_eq_lt_iff {a b : WalkStep} : compareSteps a b = .lt ↔ toLex a < toLex b := by
  have hstates : compare a.1 b.1 = .eq ↔ a.1 = b.1 := Std.LawfulEqCmp.compare_eq_iff_eq
  rw [Prod.Lex.toLex_lt_toLex]
  unfold compareSteps compareLex compareOn
  rw [Ordering.then_eq_lt, compareText_eq_lt_iff, compareText_eq_lt_iff, hstates]

theorem compareWalks_eq_lt_iff {xs ys : List WalkStep} :
    compareWalks xs ys = .lt ↔ xs.map toLex < ys.map toLex := by
  induction xs generalizing ys with
  | nil => cases ys <;> simp [compareWalks, List.compareLex_nil_nil, List.compareLex_nil_cons]
  | cons x xs ih =>
    cases ys with
    | nil => simp [compareWalks, List.compareLex_cons_nil]
    | cons y ys =>
      unfold compareWalks at ih ⊢
      rw [List.compareLex_cons_cons, Ordering.then_eq_lt, ih, List.map_cons, List.map_cons,
        List.cons_lt_cons_iff, compareSteps_eq_lt_iff, Std.LawfulEqCmp.compare_eq_iff_eq, toLex_inj]

/-- Walks are in the lexicographic order, and so are their steps. -/
theorem isLE_compareWalks_iff {xs ys : List WalkStep} :
    (compareWalks xs ys).isLE ↔ xs.map toLex ≤ ys.map toLex := by
  have hle : xs.map toLex ≤ ys.map toLex ↔ ¬ ys.map toLex < xs.map toLex := not_lt.symm
  rw [hle, ← compareWalks_eq_lt_iff, ← Std.OrientedCmp.isGE_iff_isLE, Ordering.isGE_iff_ne_lt]

/-! ## Cycles of walks that can be turned into each other -/

theorem labels_ofSteps_perm (steps : List WalkStep) :
    (Cycle.ofSteps steps).labels.Perm (steps.map Prod.snd) :=
  ((leastRotation_spec steps).1.perm.map Prod.snd).symm

namespace Cycle

theorem steps_ofSteps (steps : List WalkStep) : (ofSteps steps).steps = leastRotation steps := by
  unfold ofSteps Cycle.steps
  rw [List.zip_map']
  exact List.map_id _

theorem length_ofSteps (steps : List WalkStep) :
    (ofSteps steps).states.length = steps.length ∧ (ofSteps steps).labels.length = steps.length := by
  have hlength : (leastRotation steps).length = steps.length :=
    (leastRotation_spec steps).1.perm.length_eq.symm
  unfold ofSteps
  simp [hlength]

theorem parikh_ofSteps (steps : List WalkStep) :
    (ofSteps steps).parikh = .ofSequence (steps.map Prod.snd) :=
  ParikhVector.ofSequence_eq_iff.2 (labels_ofSteps_perm steps)

/-- The rotation can be recovered: either walk can be turned into the one that stands in the cycle. -/
theorem ofSteps_eq_iff {xs ys : List WalkStep} : ofSteps xs = ofSteps ys ↔ xs ~r ys := by
  constructor
  · intro heq
    have hleast : leastRotation xs = leastRotation ys := by
      rw [← steps_ofSteps, ← steps_ofSteps, heq]
    have hxs : xs ~r leastRotation ys := hleast ▸ (leastRotation_spec xs).1
    exact hxs.trans (leastRotation_spec ys).1.symm
  · intro hrotated
    apply isCanonical_iff.1
    exact (isCanonical_iff.2 rfl).of_isRotated hrotated

/-- Two closed walks have the same cycle if one is a rotation of the other. The cycle has as many states and as
many labels as the walk has steps, and pair by pair they are its lexicographically least rotation. The counts
are those of the labels of the walk. -/
theorem ofSteps_canonical (xs ys : List WalkStep) :
    (ofSteps xs = ofSteps ys ↔ xs ~r ys) ∧
    ((ofSteps xs).states.length = xs.length ∧ (ofSteps xs).labels.length = xs.length) ∧
    xs ~r (ofSteps xs).states.zip (ofSteps xs).labels ∧
    (∀ r, xs ~r r → ((ofSteps xs).states.zip (ofSteps xs).labels).map toLex ≤ r.map toLex) ∧
    (ofSteps xs).parikh = .ofSequence (xs.map Prod.snd) := by
  have hzip : (ofSteps xs).states.zip (ofSteps xs).labels = leastRotation xs := steps_ofSteps xs
  obtain ⟨hrotated, hleast⟩ := leastRotation_spec xs
  rw [hzip]
  refine ⟨ofSteps_eq_iff, length_ofSteps xs, hrotated, fun r hr => ?_, parikh_ofSteps xs⟩
  exact isLE_compareWalks_iff.1 (hleast r hr)

/-- A walk twice around two states has two least rotations, which are the same walk. -/
example : (ofSteps [("b", "out"), ("a", "in"), ("b", "out"), ("a", "in")]).steps =
    [("a", "in"), ("b", "out"), ("a", "in"), ("b", "out")] := by decide +kernel

end Cycle

end PetriNets
