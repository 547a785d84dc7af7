import PetriNets.Proofs.Cycles.Canonical
import PetriNets.Proofs.Cycles.Shortest
import PetriNets.Proofs.OrderedList

/-!
# The smallest cycles

The search through one state finds the cycles of the smallest closed walks through it
(`exists_cyclesThrough`), in a component that is not cyclic as well, where there are none. Over all
states that the mode selects they are put into one ascending list (`exists_cyclesFrom`). Such a list is
determined by its members, and these by the states, the arcs and the initial state; so neither the
order of the states and arcs nor that of the components can be seen (`smallestCycles_exact`).
-/

namespace PetriNets

namespace TransitionSystem

/-- The states through which cycles are sought. -/
def Selects (ts : TransitionSystem) : CycleMode → String → Prop
  | .allStates, v => v ∈ ts.stateIds
  | .initialState, v => ts.initial = some v

/-- A cycle that stands for a smallest closed walk through a state that the mode selects. -/
def IsSmallest (ts : TransitionSystem) (mode : CycleMode) (c : Cycle) : Prop :=
  ∃ v, ts.Selects mode v ∧ ∃ steps, ts.SmallestThrough v steps ∧ IsCanonical c steps

/-- The same states, arcs and initial state. -/
structure SameSets (ts ts' : TransitionSystem) : Prop where
  states : ∀ v, v ∈ ts.stateIds ↔ v ∈ ts'.stateIds
  arcs : ∀ v l w, ts.HasArc v l w ↔ ts'.HasArc v l w
  initial : ts.initial = ts'.initial

variable {ts ts' : TransitionSystem} {components : List (List String)} {v w : String}
  {starts : List String} {steps : List WalkStep} {found : List Cycle} {c : Cycle} {mode : CycleMode}
  {rounds : Nat}

/-! ## One state -/

theorem exists_canonical_iff : (∃ steps, ts.SmallestThrough v steps ∧ IsCanonical c steps) ↔
    ∃ steps, (ts.Walk v steps v ∧ steps ≠ [] ∧
      ∀ others, ts.Walk v others v → others ≠ [] → steps.length ≤ others.length) ∧
      IsCanonical c steps := by
  rw [exists_smallestThrough_iff fun xs ys h => ⟨(·.of_isRotated h), (·.of_isRotated h.symm)⟩]
  simp only [and_assoc]

section Search

variable (hts : ts.WellFormed) (hcomponents : ts.ListsComponents components)
include hts hcomponents

/-- The search through one state takes a round for each state at most. -/
theorem exists_cyclesThrough (hv : v ∈ ts.stateIds) (hrounds : ts.stateCount ≤ rounds) :
    ∃ cycles rest, ts.cyclesThrough components v rounds = some (cycles, rest) ∧
      rounds ≤ rest + ts.stateCount ∧
      ∀ c, c ∈ cycles ↔ ∃ steps, ts.SmallestThrough v steps ∧ IsCanonical c steps := by
  obtain ⟨number, component, hnumber, hcomponent, hmem⟩ := hcomponents.exists_componentOf hts hv
  unfold cyclesThrough
  rw [hnumber]
  dsimp only
  rw [hcomponent, Option.any_some]
  by_cases hcyclic : ts.isCyclic component = true
  · rw [if_pos hcyclic]
    have hwithin : ∀ w, decide (componentOf components w = some number) = true ↔ ts.Connected v w := by
      intro w
      rw [decide_eq_true_eq]
      exact hcomponents.componentOf_eq_iff hts hnumber
    have hsearching : CycleSearch.Searching ts v (fun w => componentOf components w = some number) []
        (.atStart v) := CycleSearch.searching_atStart ((hwithin v).2 (.refl v))
    obtain ⟨s, rest, done, hrun, hrest, hsearched⟩ := CycleSearch.exists_run hts hv hsearching
      CycleSearch.layered_atStart hrounds
    refine ⟨(s.closedWalks v).map Cycle.ofSteps, rest, ?_, hrest, fun c => ?_⟩
    · rw [hrun]
      rfl
    · rw [exists_canonical_iff, List.mem_map]
      simp only [hsearched.mem_closedWalks_iff hts hwithin, isCanonical_iff, eq_comm]
  · rw [if_neg hcyclic]
    refine ⟨[], rounds, rfl, Nat.le_add_right _ _, fun c => ?_⟩
    rw [exists_canonical_iff]
    refine ⟨nofun, ?_⟩
    rintro ⟨steps, ⟨hwalk, hne, -⟩, -⟩
    have hc := List.mem_of_getElem? hcomponent
    exact absurd (hcomponents.isCyclic_of_walk hts hc hmem hwalk hne) hcyclic

/-! ## All states -/

/-- The searches through several states put what they find into the list. -/
theorem exists_cyclesFrom (hstarts : starts ⊆ ts.stateIds)
    (hrounds : starts.length * (ts.stateCount + 1) ≤ rounds) (hfound : Ascending Cycle.compare found) :
    ∃ cycles, ts.cyclesFrom components starts rounds found = some cycles ∧
      Ascending Cycle.compare cycles ∧ ∀ c, c ∈ cycles ↔ c ∈ found ∨
        ∃ v ∈ starts, ∃ steps, ts.SmallestThrough v steps ∧ IsCanonical c steps := by
  induction starts generalizing rounds found with
  | nil => exact ⟨found, rfl, hfound, by simp⟩
  | cons start starts ih =>
    rw [List.length_cons, Nat.add_mul, Nat.one_mul] at hrounds
    obtain ⟨hstart, hstarts⟩ := List.cons_subset.1 hstarts
    obtain ⟨rounds, rfl⟩ := Nat.exists_eq_add_one_of_ne_zero (show rounds ≠ 0 by omega)
    obtain ⟨cycles, rest, hthrough, hrest, hcycles⟩ :=
      exists_cyclesThrough hts hcomponents hstart (show ts.stateCount ≤ rounds by omega)
    have hnext : Ascending Cycle.compare
        (cycles.foldl (fun found c => insertOrdered Cycle.compare c found) found) :=
      hfound.foldl_insertOrdered
    obtain ⟨all, hall, hascending, hmem⟩ := ih hstarts
      (show starts.length * (ts.stateCount + 1) ≤ rest by omega) hnext
    refine ⟨all, ?_, hascending, fun c => ?_⟩
    · unfold cyclesFrom
      rw [hthrough]
      exact hall
    · rw [hmem, mem_foldl_insertOrdered_iff, hcycles, or_assoc]
      simp

end Search

/-! ## The result -/

theorem WellFormed.cycleStarts_spec (hts : ts.WellFormed) :
    (mode = .initialState ∧ ts.initial = none ∧ ts.cycleStarts mode = .error .noInitialState) ∨
    ¬ (mode = .initialState ∧ ts.initial = none) ∧ ∃ starts, ts.cycleStarts mode = .ok starts ∧
      (∀ v, v ∈ starts ↔ ts.Selects mode v) ∧ starts ⊆ ts.stateIds ∧
      starts.length ≤ ts.stateCount := by
  cases mode with
  | allStates =>
    exact .inr ⟨nofun, ts.stateIds, rfl, fun v => .rfl, List.Subset.refl _,
      Nat.le_of_eq length_stateIds⟩
  | initialState =>
    cases hinitial : ts.initial with
    | none => exact .inl ⟨rfl, rfl, by simp [cycleStarts, initialState?, hinitial]⟩
    | some v =>
      have hv := hts.initial_mem v hinitial
      obtain ⟨n, hn, rfl⟩ := hts.exists_initialState? hinitial
      refine .inr ⟨nofun, [n.id], by simp [cycleStarts, hn], fun w => ?_, ?_, ?_⟩
      · simp [Selects, hinitial, eq_comm]
      · exact List.cons_subset.2 ⟨hv, List.nil_subset _⟩
      · rw [← length_stateIds]
        exact List.length_pos_of_mem hv

/-- With any list of the components and rounds enough. -/
theorem WellFormed.smallestCyclesBy_spec (hts : ts.WellFormed)
    (hcomponents : ts.ListsComponents components)
    (hrounds : ts.stateCount * (ts.stateCount + 1) ≤ rounds) (mode : CycleMode) :
    (mode = .initialState ∧ ts.initial = none ∧
      smallestCyclesBy components rounds ts mode = .error .noInitialState) ∨
    ¬ (mode = .initialState ∧ ts.initial = none) ∧ ∃ cycles,
      smallestCyclesBy components rounds ts mode = .ok ⟨cycles, none⟩ ∧
      Ascending Cycle.compare cycles ∧ ∀ c, c ∈ cycles ↔ ts.IsSmallest mode c := by
  rcases hts.cycleStarts_spec with ⟨hmode, hinitial, herror⟩ |
    ⟨hset, starts, hstarts, hselects, hsub, hlength⟩
  · refine .inl ⟨hmode, hinitial, ?_⟩
    unfold smallestCyclesBy
    rw [herror]
    rfl
  · have henough := Nat.le_trans (Nat.mul_le_mul_right (ts.stateCount + 1) hlength) hrounds
    obtain ⟨cycles, hcycles, hascending, hmem⟩ :=
      exists_cyclesFrom hts hcomponents hsub henough List.Pairwise.nil
    refine .inr ⟨hset, cycles, ?_, hascending, fun c => ?_⟩
    · simp only [smallestCyclesBy, hstarts, hcycles, bind, Except.bind]
    · rw [hmem]
      simp [IsSmallest, hselects]

/-! ## Any number of rounds -/

theorem cyclesThrough_add {cycles : List Cycle} {rest : Nat} (more : Nat)
    (h : ts.cyclesThrough components v rounds = some (cycles, rest)) :
    ts.cyclesThrough components v (rounds + more) = some (cycles, rest + more) := by
  unfold cyclesThrough at h ⊢
  split at h
  · cases h
    rfl
  · next number _ =>
    dsimp only at h ⊢
    split at h
    · next hcyclic =>
      rw [if_pos hcyclic]
      obtain ⟨⟨s, left⟩, hrun, hcycles⟩ := Option.bind_eq_some_iff.1 h
      cases hcycles
      rw [CycleSearch.run_add more hrun]
      rfl
    · next hcyclic =>
      cases h
      rw [if_neg hcyclic]

theorem cyclesFrom_add {cycles : List Cycle} (more : Nat)
    (h : ts.cyclesFrom components starts rounds found = some cycles) :
    ts.cyclesFrom components starts (rounds + more) found = some cycles := by
  induction starts generalizing rounds found with
  | nil => exact h
  | cons start starts ih =>
    cases rounds with
    | zero => cases h
    | succ rounds =>
      obtain ⟨⟨through, rest⟩, hthrough, hfrom⟩ := Option.bind_eq_some_iff.1 h
      rw [Nat.add_right_comm]
      unfold cyclesFrom
      rw [cyclesThrough_add more hthrough]
      exact ih hfrom

theorem smallestCyclesBy_add {s : SmallestCycles} (more : Nat)
    (h : smallestCyclesBy components rounds ts mode = .ok s) :
    smallestCyclesBy components (rounds + more) ts mode = .ok s := by
  obtain ⟨starts, hstarts, hcycles⟩ := bind_eq_ok_iff.1 h
  unfold smallestCyclesBy
  rw [hstarts]
  split at hcycles
  · next cycles hfrom =>
    cases hcycles
    simp only [bind, Except.bind, cyclesFrom_add more hfrom]
  · cases hcycles

/-- Whatever is found in fewer rounds is right as well. -/
theorem WellFormed.isSmallest_of_mem (hts : ts.WellFormed)
    (hcomponents : ts.ListsComponents components) {s : SmallestCycles}
    (h : smallestCyclesBy components rounds ts mode = .ok s) (hc : c ∈ s.cycles) :
    ts.IsSmallest mode c := by
  have hmore := smallestCyclesBy_add (ts.stateCount * (ts.stateCount + 1)) h
  rcases hts.smallestCyclesBy_spec hcomponents (Nat.le_add_left _ rounds) mode with
    ⟨-, -, herror⟩ | ⟨-, cycles, hok, -, hmem⟩
  · cases hmore.symm.trans herror
  · cases hmore.symm.trans hok
    exact (hmem c).1 hc

/-- A cycle that is found is a closed walk. -/
theorem IsSmallest.exists_closedWalk (h : ts.IsSmallest mode c) : ∃ steps, ts.ClosedWalk steps ∧
    c = ⟨steps.map Prod.fst, steps.map Prod.snd, .ofSequence (steps.map Prod.snd)⟩ := by
  obtain ⟨v, -, steps, ⟨hclosed, -, -⟩, least, hrotated, -, hc⟩ := h
  exact ⟨least, hclosed.of_isRotated hrotated, hc⟩

namespace SameSets

variable (h : SameSets ts ts')
include h

theorem symm : SameSets ts' ts :=
  ⟨fun v => (h.states v).symm, fun v l w => (h.arcs v l w).symm, h.initial.symm⟩

theorem walk (hwalk : ts.Walk v steps w) : ts'.Walk v steps w := by
  induction hwalk with
  | nil v => exact .nil v
  | cons arc _ ih => exact .cons ((h.arcs _ _ _).1 arc) ih

theorem smallestThrough (hsmallest : ts.SmallestThrough v steps) : ts'.SmallestThrough v steps := by
  obtain ⟨⟨hne, u, hwalk⟩, hthrough, hleast⟩ := hsmallest
  refine ⟨⟨hne, u, h.walk hwalk⟩, hthrough, fun others hothers => ?_⟩
  obtain ⟨hothersne, w, hwalk⟩ := hothers
  exact hleast others ⟨hothersne, w, h.symm.walk hwalk⟩

theorem isSmallest (hc : ts.IsSmallest mode c) : ts'.IsSmallest mode c := by
  obtain ⟨v, hv, steps, hsteps, hcanonical⟩ := hc
  refine ⟨v, ?_, steps, h.smallestThrough hsteps, hcanonical⟩
  cases mode with
  | allStates => exact (h.states v).1 hv
  | initialState => exact h.initial.symm.trans hv

end SameSets

/-- Two ways to compute the smallest cycles of the same states, arcs and initial state agree. -/
theorem SameSets.smallestCyclesBy_eq (h : SameSets ts ts') (hts : ts.WellFormed) (hts' : ts'.WellFormed)
    {components' : List (List String)} {rounds' : Nat} (hcomponents : ts.ListsComponents components)
    (hcomponents' : ts'.ListsComponents components')
    (hrounds : ts.stateCount * (ts.stateCount + 1) ≤ rounds)
    (hrounds' : ts'.stateCount * (ts'.stateCount + 1) ≤ rounds') (mode : CycleMode) :
    smallestCyclesBy components rounds ts mode = smallestCyclesBy components' rounds' ts' mode := by
  rcases hts.smallestCyclesBy_spec hcomponents hrounds mode with ⟨hmode, hnone, heq⟩ |
    ⟨hset, cycles, heq, hascending, hmem⟩ <;>
  rcases hts'.smallestCyclesBy_spec hcomponents' hrounds' mode with ⟨hmode', hnone', heq'⟩ |
    ⟨hset', cycles', heq', hascending', hmem'⟩
  · rw [heq, heq']
  · exact absurd ⟨hmode, h.initial ▸ hnone⟩ hset'
  · exact absurd ⟨hmode', h.initial ▸ hnone'⟩ hset
  · have hcycles : cycles = cycles' := hascending.eq_of_mem_iff hascending' fun c => by
      rw [hmem, hmem']
      exact ⟨h.isSmallest, h.symm.isSmallest⟩
    rw [heq, heq', hcycles]

/-- The smallest cycles are exact. The components may be listed in any order. There is no result if and
only if cycles through the initial state are sought and there is none. Otherwise the result holds, in
ascending order, the cycles of the closed walks through the states sought that are as short as any. It
is the same for all systems with the same states, arcs and initial state. -/
theorem smallestCycles_exact (built : ts.Built) (mode : CycleMode) :
    (∀ components rounds, ts.ListsComponents components →
      ts.stateCount * (ts.stateCount + 1) ≤ rounds →
      smallestCyclesBy components rounds ts mode = ts.smallestCycles mode) ∧
    (ts.smallestCycles mode = .error .noInitialState ↔
      mode = .initialState ∧ ts.initial = none) ∧
    (¬ (mode = .initialState ∧ ts.initial = none) → ∃ cycles,
      ts.smallestCycles mode = .ok ⟨cycles, none⟩ ∧
      cycles.Pairwise (fun c d => c.compare d = .lt) ∧
      ∀ c, c ∈ cycles ↔ ts.IsSmallest mode c) ∧
    ∀ ts' : TransitionSystem, ts'.Built → SameSets ts ts' →
      ts'.smallestCycles mode = ts.smallestCycles mode := by
  have hts := built.wellFormed
  have hsame : SameSets ts ts := ⟨fun _ => .rfl, fun _ _ _ => .rfl, rfl⟩
  have hspec := hts.smallestCyclesBy_spec hts.listsComponents (Nat.le_refl _) mode
  refine ⟨fun components rounds hcomponents hrounds => ?_, ?_, fun hset => ?_, fun ts' built' h => ?_⟩
  · exact hsame.smallestCyclesBy_eq hts hts hcomponents hts.listsComponents hrounds (Nat.le_refl _) mode
  · rcases hspec with ⟨hmode, hnone, herror⟩ | ⟨hset, cycles, hok, -⟩
    · exact ⟨fun _ => ⟨hmode, hnone⟩, fun _ => herror⟩
    · exact ⟨fun herror => (nomatch herror.symm.trans hok), fun h => absurd h hset⟩
  · rcases hspec with ⟨hmode, hnone, -⟩ | ⟨-, cycles, hok, hascending, hmem⟩
    · exact absurd ⟨hmode, hnone⟩ hset
    · exact ⟨cycles, hok, hascending, hmem⟩
  · have hts' := built'.wellFormed
    exact h.symm.smallestCyclesBy_eq hts' hts hts'.listsComponents hts.listsComponents
      (Nat.le_refl _) (Nat.le_refl _) mode

/-- There and back, with two ways there. -/
def waysDocument : SystemDocument where
  name := "ways"
  states := [⟨"a", ∅⟩, ⟨"b", ∅⟩]
  arcs := [⟨"a", "b", "walk", ∅⟩, ⟨"a", "b", "ride", ∅⟩, ⟨"b", "a", "return", ∅⟩]
  initial := some "b"
  extensions := ∅

/-- Both ways are found, from the state that comes first. -/
theorem smallestCycles_exact_waysDocument : ∃ ts, waysDocument.toSystem = .ok ts ∧
    ts.smallestCycles .initialState = .ok ⟨[.ofSteps [("a", "ride"), ("b", "return")],
      .ofSteps [("a", "walk"), ("b", "return")]], none⟩ ∧
    ∀ c, ts.IsSmallest .initialState c ↔ c = .ofSteps [("a", "ride"), ("b", "return")] ∨
      c = .ofSteps [("a", "walk"), ("b", "return")] := by
  have hways : ∃ ts, waysDocument.toSystem = .ok ts ∧ ts.initial = some "b" ∧
      ts.smallestCycles .initialState = .ok ⟨[.ofSteps [("a", "ride"), ("b", "return")],
        .ofSteps [("a", "walk"), ("b", "return")]], none⟩ :=
    ⟨_, rfl, rfl, by decide +kernel⟩
  obtain ⟨ts, hts, hinitial, hcycles⟩ := hways
  obtain ⟨-, -, hexact, -⟩ := smallestCycles_exact (built_of_toSystem hts) .initialState
  obtain ⟨cycles, hok, -, hmem⟩ := hexact fun h => nomatch hinitial.symm.trans h.2
  rw [hcycles] at hok
  cases hok
  refine ⟨ts, hts, hcycles, fun c => ?_⟩
  rw [← hmem, List.mem_cons, List.mem_singleton]

end TransitionSystem

end PetriNets
