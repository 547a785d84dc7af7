import PetriNets.Proofs.Cycles.Smallest
import PetriNets.Proofs.Ring.Graph

/-!
# The cycle of a ring

The reachability system of a ring is a ring of states. A walk in it has no choice: it is known by where it
begins and how long it is (`eq_of_walk`), and it gets back for the first time after a lap. Laps that begin
at different states are rotations of each other (`rotate_ringWalk`), so they are all one cycle, and it is
the smallest one, whichever states the search begins with (`isSmallest_iff`).
-/

namespace PetriNets

open TransitionSystem

variable {n i k : Nat} {ts : TransitionSystem} {v w : String} {steps : List WalkStep} {c : Cycle}
  {mode : CycleMode}

/-- The step that comes after `k` others around a ring of `n`. -/
def ringStep (n k : Nat) : WalkStep := (stateName (k % n), (ringTransition (k % n)).id)

/-- The `k` steps from the `i`-th state of a ring of `n`. -/
def ringWalk (n i k : Nat) : List WalkStep := (List.range k).map fun d => ringStep n (i + d)

@[simp] theorem length_ringWalk (n i k : Nat) : (ringWalk n i k).length = k := by
  simp [ringWalk]

theorem ringWalk_succ (n i k : Nat) : ringWalk n i (k + 1) = ringWalk n i k ++ [ringStep n (i + k)] := by
  unfold ringWalk
  rw [List.range_succ, List.map_append]
  rfl

theorem rotate_ringWalk (n i : Nat) : (ringWalk n 0 n).rotate i = ringWalk n i n := by
  refine List.ext_getElem (by simp) fun d hd hd' => ?_
  have hstep : ringStep n (0 + (d + i) % n) = ringStep n (i + d) := by
    unfold ringStep
    rw [Nat.zero_add, Nat.mod_mod, Nat.add_comm]
  simpa [List.getElem_rotate, ringWalk] using hstep

theorem map_snd_ringWalk (n : Nat) :
    (ringWalk n 0 n).map Prod.snd = (List.range n).map fun i => (ringTransition i).id := by
  unfold ringWalk
  rw [List.map_map]
  refine List.map_congr_left fun d hd => ?_
  rw [Function.comp_apply, ringStep, Nat.zero_add, Nat.mod_eq_of_lt (List.mem_range.1 hd)]

/-- States in a ring, each with one arc to the next one. -/
structure RingSystem (n : Nat) (ts : TransitionSystem) : Prop where
  wellFormed : ts.WellFormed
  stateIds : ts.stateIds = (List.range n).map stateName
  initial : ts.initial = some (stateName 0)
  hasArc : ∀ v l w, ts.HasArc v l w ↔ ∃ k < n,
    v = stateName k ∧ l = (ringTransition k).id ∧ w = stateName ((k + 1) % n)

namespace RingSystem

variable (h : RingSystem n ts)
include h

theorem walk_ringWalk (hi : i < n) (k : Nat) :
    ts.Walk (stateName i) (ringWalk n i k) (stateName ((i + k) % n)) := by
  induction k with
  | zero =>
    rw [Nat.add_zero, Nat.mod_eq_of_lt hi]
    exact .nil _
  | succ k ih =>
    rw [ringWalk_succ, walk_concat_iff]
    refine ⟨ih, (h.hasArc _ _ _).2 ⟨(i + k) % n, Nat.mod_lt _ (Nat.zero_lt_of_lt hi), rfl, rfl, ?_⟩⟩
    rw [Nat.mod_add_mod, Nat.add_assoc]

/-- Where a walk begins and how long it is determine it. -/
theorem eq_of_walk (hi : i < n) (hwalk : ts.Walk (stateName i) steps w) :
    steps = ringWalk n i steps.length ∧ w = stateName ((i + steps.length) % n) := by
  induction steps using List.reverseRecOn generalizing w with
  | nil =>
    obtain rfl := walk_nil_iff.1 hwalk
    exact ⟨rfl, by rw [List.length_nil, Nat.add_zero, Nat.mod_eq_of_lt hi]⟩
  | append_singleton steps step ih =>
    obtain ⟨hbefore, harc⟩ := walk_concat_iff.1 hwalk
    obtain ⟨hsteps, hsource⟩ := ih hbefore
    obtain ⟨k, hk, hk', hlabel, rfl⟩ := (h.hasArc _ _ _).1 harc
    obtain rfl : k = (i + steps.length) % n := stateName_injective (hk'.symm.trans hsource)
    have hstep : step = ringStep n (i + steps.length) := Prod.ext hsource hlabel
    rw [List.length_append, List.length_singleton, ringWalk_succ, ← hsteps, hstep, Nat.mod_add_mod,
      Nat.add_assoc]
    exact ⟨rfl, rfl⟩

theorem le_length_of_walk (hi : i < n) (hwalk : ts.Walk (stateName i) steps (stateName i))
    (hne : steps ≠ []) : n ≤ steps.length := by
  have hback := stateName_injective (h.eq_of_walk hi hwalk).2
  have hpos := List.length_pos_of_ne_nil hne
  by_contra hlt
  -- less than a lap ends at a later state, or at an earlier one if it passes the end
  by_cases hend : i + steps.length < n
  · rw [Nat.mod_eq_of_lt hend] at hback
    omega
  · rw [Nat.mod_eq_sub_mod (Nat.le_of_not_lt hend), Nat.mod_eq_of_lt (by omega)] at hback
    omega

/-- Through each state leads one smallest closed walk, a lap. -/
theorem least_walk_iff (hi : i < n) : (ts.Walk (stateName i) steps (stateName i) ∧ steps ≠ [] ∧
    ∀ others, ts.Walk (stateName i) others (stateName i) → others ≠ [] →
      steps.length ≤ others.length) ↔ steps = ringWalk n i n := by
  have hlap : ts.Walk (stateName i) (ringWalk n i n) (stateName i) := by
    have hwalk := h.walk_ringWalk hi n
    rwa [Nat.add_mod_right, Nat.mod_eq_of_lt hi] at hwalk
  have hne : ringWalk n i n ≠ [] := List.ne_nil_of_length_pos
    ((length_ringWalk n i n).symm ▸ Nat.zero_lt_of_lt hi)
  constructor
  · rintro ⟨hwalk, hsteps, hleast⟩
    have hlength : steps.length = n := Nat.le_antisymm
      ((hleast _ hlap hne).trans_eq (length_ringWalk n i n)) (h.le_length_of_walk hi hwalk hsteps)
    exact hlength ▸ (h.eq_of_walk hi hwalk).1
  · rintro rfl
    refine ⟨hlap, hne, fun others hothers hsome => ?_⟩
    rw [length_ringWalk]
    exact h.le_length_of_walk hi hothers hsome

theorem exists_of_selects (hn : 0 < n) (hv : ts.Selects mode v) : ∃ i < n, v = stateName i := by
  cases mode with
  | allStates =>
    have hmem : v ∈ ts.stateIds := hv
    rw [h.stateIds, List.mem_map] at hmem
    obtain ⟨i, hi, rfl⟩ := hmem
    exact ⟨i, List.mem_range.1 hi, rfl⟩
  | initialState => exact ⟨0, hn, Option.some.inj (hv.symm.trans h.initial)⟩

theorem selects_zero (hn : 0 < n) : ts.Selects mode (stateName 0) := by
  cases mode with
  | allStates =>
    show _ ∈ ts.stateIds
    rw [h.stateIds]
    exact List.mem_map_of_mem (List.mem_range.2 hn)
  | initialState => exact h.initial

/-- Laps are rotations of each other, so there is one smallest cycle. -/
theorem isSmallest_iff (hn : 0 < n) : ts.IsSmallest mode c ↔ c = Cycle.ofSteps (ringWalk n 0 n) := by
  have hlaps : ∀ i, IsCanonical c (ringWalk n i n) ↔ c = Cycle.ofSteps (ringWalk n 0 n) := by
    intro i
    have hrotated : ringWalk n 0 n ~r ringWalk n i n := ⟨i, rotate_ringWalk n i⟩
    rw [← isCanonical_iff]
    exact ⟨fun hc => hc.of_isRotated hrotated.symm, fun hc => hc.of_isRotated hrotated⟩
  constructor
  · rintro ⟨v, hv, hsmallest⟩
    obtain ⟨i, hi, rfl⟩ := h.exists_of_selects hn hv
    obtain ⟨steps, hleast, hc⟩ := exists_canonical_iff.1 hsmallest
    obtain rfl := (h.least_walk_iff hi).1 hleast
    exact (hlaps i).1 hc
  · intro hc
    exact ⟨_, h.selects_zero hn, exists_canonical_iff.2
      ⟨_, (h.least_walk_iff hn).2 rfl, (hlaps 0).2 hc⟩⟩

theorem smallestCycles_eq (hn : 0 < n) (mode : CycleMode) :
    ts.smallestCycles mode = .ok ⟨[Cycle.ofSteps (ringWalk n 0 n)], none⟩ := by
  rcases h.wellFormed.smallestCyclesBy_spec h.wellFormed.listsComponents (Nat.le_refl _) mode with
    ⟨-, hnone, -⟩ | ⟨-, cycles, hcycles, hascending, hmem⟩
  · exact absurd (h.initial.symm.trans hnone) nofun
  · have hone : cycles = [Cycle.ofSteps (ringWalk n 0 n)] :=
      hascending.eq_of_mem_iff (List.pairwise_singleton _ _) fun c => by
        rw [hmem, h.isSmallest_iff hn, List.mem_singleton]
    exact hone ▸ hcycles

end RingSystem

theorem labels_ringWalk_perm (n : Nat) : (Cycle.ofSteps (ringWalk n 0 n)).labels.Perm
    ((List.range n).map fun i => (ringTransition i).id) :=
  map_snd_ringWalk n ▸ labels_ofSteps_perm (ringWalk n 0 n)

theorem count_labels_ringWalk (hi : i < n) :
    (Cycle.ofSteps (ringWalk n 0 n)).labels.count (ringTransition i).id = 1 := by
  rw [(labels_ringWalk_perm n).count_eq]
  exact List.count_eq_one_of_mem (List.nodup_range.map id_ringTransition_injective)
    (List.mem_map_of_mem (List.mem_range.2 hi))

theorem length_cycle_ringWalk (n : Nat) : (Cycle.ofSteps (ringWalk n 0 n)).length = n := by
  unfold Cycle.length
  rw [(labels_ringWalk_perm n).length_eq, List.length_map, List.length_range]

theorem RingPart.ringSystem {net : Net} {rounds : Nat} {config : AnalysisConfig} {g : CoverabilityGraph}
    (h : RingPart n n n net) (hn : 0 < n) (hg : CoverabilityGraph.buildWithin rounds config net = .ok g) :
    RingSystem n g.system := by
  obtain ⟨hwell, -, hinitial, -⟩ := CoverabilityGraph.system_spec_of_explore hg
  have hids := CoverabilityGraph.stateIds_system hg
  rw [h.nodeCount_eq hn hg] at hids
  exact ⟨hwell, hids, hinitial, fun _ _ _ => h.hasArc_system_iff hn hg⟩

/-- What a ring is, whatever its size. It is built, with one place, one transition and two flows for each
step. Its transitions can fire in order, and bring it back to where it began. In whichever order it is
explored, its graph has one node and one edge for each step, no `ω` and no deadlock, so the ring is bounded
by its one token; and its reachability system has one smallest cycle, whichever states it is sought from,
in which each transition occurs once. -/
theorem ring_exact (n : Nat) (hn : 0 < n) : ∃ net, ring n = .ok net ∧ net.Built ∧
    net.placeCount = n ∧ net.transitionCount = n ∧ net.flows.length = 2 * n ∧
    net.fireSequence net.initialMarking ((List.range n).map fun i => .name s!"t{i}") =
      .ok net.initialMarking ∧
    ∀ config : AnalysisConfig, config.stateLimit = none →
      net.checkBounded config = .ok (.bounded 1) ∧
      ∃ g, CoverabilityGraph.build config net = .ok g ∧ g.nodeCount = n ∧ g.edgeCount = n ∧
        g.hasOmega = false ∧ g.deadlocks = [] ∧
        ∃ ts, g.reachabilitySystem = .ok ts ∧ ∀ mode, ∃ c,
          ts.smallestCycles mode = .ok ⟨[c], none⟩ ∧ c.length = n ∧
            ∀ i < n, c.labels.count s!"t{i}" = 1 := by
  obtain ⟨net, hring, h⟩ := exists_ring n
  refine ⟨net, hring, h.built, h.placeCount_eq, h.transitionCount_eq, h.length_flows,
    h.fireSequence_lap, fun config hlimit => ?_⟩
  obtain ⟨g, hg⟩ := h.exists_build hn hlimit
  have homega := h.hasOmega_eq_false hn hg
  refine ⟨?_, g, hg, h.nodeCount_eq hn hg, h.edgeCount_eq hn hg, homega, h.deadlocks_eq_nil hn hg,
    g.system, (CoverabilityGraph.reachabilitySystem_eq_ok_iff hg).2 ⟨homega, rfl⟩, fun mode => ?_⟩
  · unfold Net.checkBounded
    rw [hg, ← h.boundedness_eq hn hg]
    rfl
  · exact ⟨_, (h.ringSystem hn hg).smallestCycles_eq hn mode, length_cycle_ringWalk n,
      fun i hi => count_labels_ringWalk hi⟩

/-- A ring of three, explored depth first. -/
theorem ring_exact_three : ∃ net g ts c, ring 3 = .ok net ∧
    net.fireSequence net.initialMarking [.name "t0", .name "t1", .name "t2"] =
      .ok net.initialMarking ∧
    CoverabilityGraph.build { (default : AnalysisConfig) with explorationOrder := .depthFirst } net =
      .ok g ∧ g.nodeCount = 3 ∧ g.reachabilitySystem = .ok ts ∧
    ts.smallestCycles .initialState = .ok ⟨[c], none⟩ ∧ c.length = 3 := by
  obtain ⟨net, hring, -, -, -, -, hlap, hanalysis⟩ := ring_exact 3 (by decide)
  obtain ⟨-, g, hg, hnodes, -, -, -, ts, hts, hcycles⟩ :=
    hanalysis { (default : AnalysisConfig) with explorationOrder := .depthFirst } rfl
  obtain ⟨c, hc, hlength, -⟩ := hcycles .initialState
  exact ⟨net, g, ts, c, hring, hlap, hg, hnodes, hts, hc, hlength⟩

end PetriNets
