import PetriNets.Coverability.Graph
import PetriNets.Proofs.Coverability.Exploration
import PetriNets.Proofs.FiringSequence
import PetriNets.Proofs.FirstOccurrences

/-!
# Coverability graphs as explorations

A coverability graph is what a finished exploration of the net has found; the questions that it
answers are questions about the markings of its nodes.
-/

namespace PetriNets

namespace CoverabilityGraph

variable {net : Net} {cap : Capacity} {rounds : Nat} {config : AnalysisConfig}
  {g : CoverabilityGraph} {x : Exploration} {m : Marking}

theorem exploreWithin_eq_ok_iff : exploreWithin cap rounds config net = .ok g ↔
    ∃ x, (net.problem cap config).run rounds = .ok x ∧ ofExploration net x = g := by
  unfold exploreWithin
  cases (net.problem cap config).run rounds with
  | error halt => exact ⟨nofun, nofun⟩
  | ok x => exact ⟨fun h => ⟨x, rfl, Except.ok.inj h⟩, fun ⟨_, hx, h⟩ => Except.ok.inj hx ▸ h ▸ rfl⟩

/-- Some node of the graph has this marking. -/
def HasMarking (g : CoverabilityGraph) (m : Marking) : Prop := ∃ n ∈ g.nodes.toList, n.marking = m

theorem hasMarking_of_get? {i : NodeId} {n : CoverNode} (h : g.nodes.get? i = some n) :
    g.HasMarking n.marking := ⟨n, Table.mem_toList_iff.2 ⟨i, h⟩, rfl⟩

theorem exists_node (h : g.HasMarking m) : ∃ i n, g.nodes.get? i = some n ∧ n.marking = m := by
  obtain ⟨n, hn, rfl⟩ := h
  obtain ⟨i, hi⟩ := Table.mem_toList_iff.1 hn
  exact ⟨i, n, hi, rfl⟩

theorem firingSequence_of_get? {i : NodeId} {n : CoverNode} (h : g.nodes.get? i = some n) :
    g.firingSequence i = n.trail.transitions := by
  unfold firingSequence
  rw [h]

theorem hasMarking_ofExploration_iff :
    (ofExploration net x).HasMarking m ↔ ∃ id trail, x.Found id m trail := by
  constructor
  · rintro ⟨n, hn, rfl⟩
    obtain ⟨id, hid⟩ := Table.mem_toList_iff.1 hn
    exact ⟨id, n.trail, n.status, hid⟩
  · rintro ⟨id, trail, status, hid⟩
    exact ⟨_, Table.mem_toList_iff.2 ⟨id, hid⟩, rfl⟩

theorem covers_eq_true_iff : g.covers m = true ↔ ∃ n, g.HasMarking n ∧ m ≤ n := by
  unfold covers
  rw [List.any_eq_true]
  constructor
  · rintro ⟨n, hn, hcov⟩
    exact ⟨n.marking, ⟨n, hn, rfl⟩, Marking.covers_iff.1 hcov⟩
  · rintro ⟨_, ⟨n, hn, rfl⟩, hle⟩
    exact ⟨n, hn, Marking.covers_iff.2 hle⟩

theorem hasOmega_eq_false_iff :
    g.hasOmega = false ↔ ∀ n, g.HasMarking n → n.hasOmega = false := by
  unfold hasOmega
  rw [List.any_eq_false]
  constructor
  · rintro h _ ⟨n, hn, rfl⟩
    exact Bool.eq_false_iff.2 (h n hn)
  · intro h n hn
    exact Bool.eq_false_iff.1 (h n.marking ⟨n, hn, rfl⟩)

theorem mem_unboundedPlaces {p : PlaceId} :
    p ∈ g.unboundedPlaces ↔ ∃ n, g.HasMarking n ∧ n.count p = .omega := by
  unfold unboundedPlaces
  simp only [List.mem_map, List.mem_mergeSort, List.mem_eraseDups, List.mem_flatMap,
    Marking.mem_omegaPlaces]
  constructor
  · rintro ⟨_, ⟨n, hn, q, hq, rfl⟩, rfl⟩
    exact ⟨n.marking, ⟨n, hn, rfl⟩, hq⟩
  · rintro ⟨_, ⟨n, hn, rfl⟩, hp⟩
    exact ⟨p.index, ⟨n, hn, p, hp, rfl⟩, rfl⟩

/-- Unbounded places are listed in ascending order, each of them once. -/
theorem pairwise_unboundedPlaces (g : CoverabilityGraph) :
    g.unboundedPlaces.Pairwise fun p q => p.index < q.index := by
  unfold unboundedPlaces
  rw [List.pairwise_map]
  generalize (g.nodes.toList.flatMap fun n => n.marking.omegaPlaces.map Id.index) = places
  have hsorted : (places.eraseDups.mergeSort fun i j => decide (i ≤ j)).Pairwise (· ≤ ·) := by
    refine (List.pairwise_mergeSort (fun i j k hij hjk => ?_) (fun i j => ?_) _).imp of_decide_eq_true
    · exact decide_eq_true ((of_decide_eq_true hij).trans (of_decide_eq_true hjk))
    · rw [Bool.or_eq_true, decide_eq_true_iff, decide_eq_true_iff]
      exact Nat.le_total i j
  have hnodup : (places.eraseDups.mergeSort fun i j => decide (i ≤ j)).Nodup :=
    (List.mergeSort_perm _ _).nodup_iff.2 (nodup_eraseDups places)
  exact (hsorted.and hnodup).imp fun h => Nat.lt_of_le_of_ne h.1 h.2

end CoverabilityGraph

/-! ## A pump -/

/-- A pump that fills a tank once it is started: `start` moves the token from `off` to `on`, and as
long as it is there `fill` pours two tokens into `tank`. -/
def pumpNet : Except GraphError Net := do
  let (_, net) ← (Net.empty "pump").addPlace ⟨"off", 1, ∅⟩
  let (_, net) ← net.createPlace "on"
  let (_, net) ← net.createPlace "tank"
  let (_, net) ← net.createTransition "start"
  let (_, net) ← net.createTransition "fill"
  let net ← net.createFlow "off" "start" 1
  let net ← net.createFlow "start" "on" 1
  let net ← net.createFlow "on" "fill" 1
  let net ← net.createFlow "fill" "on" 1
  net.createFlow "fill" "tank" 2

end PetriNets
