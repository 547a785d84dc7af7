import PetriNets.Proofs.Coverability.Precision
import PetriNets.Proofs.Coverability.Structure

/-!
# Deadlocks

The nodes that enable no transition stand for dead markings. Where such a node holds `ω` it stands for
many markings, and what keeps its transitions from firing is a place without `ω`; a reachable marking
that approximates the node holds just as much there, and it covers no more anywhere else, so it is dead
too (`exists_dead_of_get?`). Where no node holds `ω` the markings of the nodes are the reachable ones,
and so the dead ones among them are listed, each of them once.
-/

namespace PetriNets

/-- What approximates a count is at most as great. -/
theorem Token.Approximates.le {k : Nat} {t u : Token} (h : t.Approximates k u) : u ≤ t := by
  cases t with
  | finite n => exact (show u = finite n from h).le
  | omega => exact le_omega

theorem Marking.Approximates.le {k : Nat} {n m : Marking} (h : n.Approximates k m) : m ≤ n :=
  ⟨h.1, fun p => (h.count p).le⟩

namespace Net

variable {net : Net} {n m : Marking}

/-- A marking is dead, and it holds what is said of the places that do not hold `ω`. -/
structure DeadAs (net : Net) (n m : Marking) : Prop where
  enabled : net.enabledTransitions m = []
  count : ∀ p c, n.count p = .finite c → m.count p = .finite c

/-- A marking enables nothing if another one that covers it enables nothing. -/
theorem enabledTransitions_eq_nil_of_le (h : m ≤ n) (hn : net.enabledTransitions n = []) :
    net.enabledTransitions m = [] := by
  unfold enabledTransitions at hn ⊢
  rw [List.filter_eq_nil_iff] at hn ⊢
  exact fun t ht henabled => hn t ht (Arcs.isEnabled_of_le h henabled)

theorem deadAs_of_approximates {k : Nat} (h : n.Approximates k m)
    (hn : net.enabledTransitions n = []) : net.DeadAs n m where
  enabled := enabledTransitions_eq_nil_of_le h.le hn
  count p c hc := by
    have hp := h.count p
    rwa [hc] at hp

end Net

namespace CoverabilityGraph

variable {net : Net} {cap : Capacity} {rounds : Nat} {config : AnalysisConfig}
  {g : CoverabilityGraph} {i : NodeId} {n : CoverNode} {m : Marking}

/-- The markings that enable no transition, in the order in which they were found. -/
def deadlockMarkings (g : CoverabilityGraph) : List Marking :=
  g.deadlocks.filterMap fun i => (g.nodes.get? i).map CoverNode.marking

/-! ## The list of nodes -/

theorem mem_deadlocks : i ∈ g.deadlocks ↔ ∃ n, g.nodes.get? i = some n ∧ n.enabled = [] := by
  unfold deadlocks
  rw [List.mem_map]
  constructor
  · rintro ⟨⟨i, n⟩, he, rfl⟩
    obtain ⟨hmem, hempty⟩ := List.mem_filter.1 he
    exact ⟨n, Table.mem_entries.1 hmem, List.isEmpty_iff.1 hempty⟩
  · rintro ⟨n, hn, hempty⟩
    exact ⟨(i, n), List.mem_filter.2 ⟨Table.mem_entries.2 hn, List.isEmpty_iff.2 hempty⟩, rfl⟩

theorem pairwise_deadlocks (g : CoverabilityGraph) :
    g.deadlocks.Pairwise fun i j => i.index < j.index := by
  have hids : g.nodes.ids.Pairwise fun i j => i.index < j.index := Id.pairwise_upTo _
  rw [← Table.map_fst_entries] at hids
  exact hids.sublist (List.filter_sublist.map _)

/-- What is listed for the deadlocks is listed for the nodes that enable nothing. -/
theorem mem_filterMap_deadlocks {α : Type} {f : NodeId → CoverNode → α} {a : α} :
    (a ∈ g.deadlocks.filterMap fun i => (g.nodes.get? i).map (f i)) ↔
      ∃ i n, g.nodes.get? i = some n ∧ n.enabled = [] ∧ f i n = a := by
  rw [List.mem_filterMap]
  constructor
  · rintro ⟨i, hi, ha⟩
    obtain ⟨n, hn, rfl⟩ := Option.map_eq_some_iff.1 ha
    obtain ⟨n', hn', hempty⟩ := mem_deadlocks.1 hi
    obtain rfl := Option.some.inj (hn.symm.trans hn')
    exact ⟨i, n, hn, hempty, rfl⟩
  · rintro ⟨i, n, hn, hempty, rfl⟩
    exact ⟨i, mem_deadlocks.2 ⟨n, hn, hempty⟩, Option.map_eq_some_iff.2 ⟨n, hn, rfl⟩⟩

/-! ## Finished graphs -/

section

variable (h : exploreWithin cap rounds config net = .ok g)
include h

/-- A node of a finished graph has noted what its marking enables. -/
theorem enabled_of_get? (hi : g.nodes.get? i = some n) :
    n.enabled = net.enabledTransitions n.marking := by
  obtain ⟨x, hrun, rfl⟩ := exploreWithin_eq_ok_iff.1 h
  obtain ⟨done, hdone, hperm⟩ := Exploration.explored_of_run hrun
  have hmem : i ∈ done := hperm.mem_iff.2 (Table.mem_ids_iff.2 ⟨n, hi⟩)
  have hstatus : n.status = .expanded (net.incidence.enabled n.marking) := hdone.status i hmem n hi
  rw [net.enabledTransitions_eq]
  unfold CoverNode.enabled
  rw [hstatus]

/-- A node that enables nothing stands for a dead marking that can be reached. -/
theorem exists_dead_of_get? (hi : g.nodes.get? i = some n) (hn : n.enabled = []) :
    ∃ m ∈ net.reachable, net.DeadAs n.marking m := by
  rw [enabled_of_get? h hi] at hn
  obtain ⟨ts, m, hts, hm⟩ := exists_reaches_approximating h (hasMarking_of_get? hi) 0
  exact ⟨m, ⟨ts, hts⟩, Net.deadAs_of_approximates hm hn⟩

theorem nodup_deadlockMarkings : g.deadlockMarkings.Nodup := by
  have hnodup : g.deadlocks.Nodup :=
    g.pairwise_deadlocks.imp fun hlt heq => Nat.ne_of_lt hlt (congrArg Id.index heq)
  refine hnodup.filterMap fun i j m hi hj => ?_
  obtain ⟨n, hn, rfl⟩ := Option.map_eq_some_iff.1 hi
  obtain ⟨n', hn', heq⟩ := Option.map_eq_some_iff.1 hj
  exact id_eq_of_marking_eq h hn hn' heq.symm

theorem mem_deadlockMarkings_iff (homega : g.hasOmega = false) : m ∈ g.deadlockMarkings ↔
    m ∈ net.reachable ∧ net.enabledTransitions m = [] := by
  unfold deadlockMarkings
  rw [mem_filterMap_deadlocks, ← hasMarking_iff_mem_reachable h homega]
  constructor
  · rintro ⟨i, n, hi, hn, rfl⟩
    exact ⟨hasMarking_of_get? hi, (enabled_of_get? h hi).symm.trans hn⟩
  · rintro ⟨hm, hdead⟩
    obtain ⟨i, n, hi, rfl⟩ := exists_node hm
    exact ⟨i, n, hi, (enabled_of_get? h hi).trans hdead, rfl⟩

end

/-- The nodes that are listed as deadlocks stand for dead markings: each of them agrees, where it does
not hold `ω`, with a reachable marking that enables no transition. They are listed in the order in which
they were found; and if no node holds `ω`, their markings are the reachable ones that enable nothing, each
of them once. -/
theorem deadlocks_exact (h : buildWithin rounds config net = .ok g) :
    (∀ i ∈ g.deadlocks, ∃ n, g.nodes.get? i = some n ∧
      ∃ m ∈ net.reachable, net.DeadAs n.marking m) ∧
    (g.deadlocks.Pairwise fun i j => i.index < j.index) ∧
    (g.hasOmega = false → g.deadlockMarkings.Nodup ∧
      ∀ m, m ∈ g.deadlockMarkings ↔ m ∈ net.reachable ∧ net.enabledTransitions m = []) := by
  refine ⟨fun i hi => ?_, g.pairwise_deadlocks, fun homega => ?_⟩
  · obtain ⟨n, hn, hempty⟩ := mem_deadlocks.1 hi
    exact ⟨n, hn, exists_dead_of_get? h hn hempty⟩
  · exact ⟨nodup_deadlockMarkings h, fun m => mem_deadlockMarkings_iff h homega⟩

/-- A tank that is filled as long as its tap is open. To drain it takes three tokens, and shuts the tap. -/
def tapNet : Net := .ofScript "tap" [.addPlace ⟨"open", 1, ∅⟩, .createPlace "tank",
  .createPlace "shut", .createTransition "fill", .createTransition "drain",
  .createFlow "open" "fill" 1, .createFlow "fill" "open" 1, .createFlow "fill" "tank" 1,
  .createFlow "open" "drain" 1, .createFlow "tank" "drain" 3, .createFlow "drain" "shut" 1]

/-- A machine that makes tea or coffee for its one coin. -/
def brewNet : Net := .ofScript "brew" [.addPlace ⟨"coin", 1, ∅⟩, .createPlace "tea",
  .createPlace "coffee", .createTransition "steep", .createTransition "grind",
  .createFlow "coin" "steep" 1, .createFlow "steep" "tea" 1, .createFlow "coin" "grind" 1,
  .createFlow "grind" "coffee" 1]

/-- When the tap is shut, whatever is left in the tank stays there; and the machine stops with either of
its drinks. -/
theorem deadlocks_exact_tapNet :
    (∃ g, buildWithin 4 default tapNet = .ok g ∧ g.deadlocks = [⟨2⟩] ∧
      ∃ m ∈ tapNet.reachable, tapNet.DeadAs ⟨[.finite 0, .omega, .finite 1]⟩ m) ∧
    ∃ g, buildWithin 4 default brewNet = .ok g ∧ g.deadlocks = [⟨1⟩, ⟨2⟩] ∧
      ∀ m, m ∈ brewNet.reachable ∧ brewNet.enabledTransitions m = [] ↔
        m = .ofCounts [0, 1, 0] ∨ m = .ofCounts [0, 0, 1] := by
  constructor
  · have htap : ∃ g, buildWithin 4 default tapNet = .ok g ∧ g.deadlocks = [⟨2⟩] ∧
        (g.nodes.get? ⟨2⟩).map CoverNode.marking = some ⟨[.finite 0, .omega, .finite 1]⟩ :=
      ⟨_, rfl, rfl, rfl⟩
    obtain ⟨g, hg, hids, hmarking⟩ := htap
    obtain ⟨hsound, -, -⟩ := deadlocks_exact hg
    obtain ⟨n, hn, m, hm, hdead⟩ := hsound ⟨2⟩ (hids ▸ List.mem_singleton_self _)
    rw [hn] at hmarking
    exact ⟨g, hg, hids, m, hm, Option.some.inj hmarking ▸ hdead⟩
  · have hbrew : ∃ g, buildWithin 4 default brewNet = .ok g ∧ g.deadlocks = [⟨1⟩, ⟨2⟩] ∧
        g.hasOmega = false ∧
        g.deadlockMarkings = [.ofCounts [0, 1, 0], .ofCounts [0, 0, 1]] :=
      ⟨_, rfl, rfl, rfl, rfl⟩
    obtain ⟨g, hg, hids, homega, hmarkings⟩ := hbrew
    obtain ⟨-, -, hbounded⟩ := deadlocks_exact hg
    obtain ⟨-, hexact⟩ := hbounded homega
    refine ⟨g, hg, hids, fun m => ?_⟩
    rw [← hexact, hmarkings, List.mem_pair]

end CoverabilityGraph

end PetriNets
