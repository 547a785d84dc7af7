import PetriNets.Proofs.Cycles.Walk
import PetriNets.Proofs.Graph.Distance

/-!
# Reachable states

The states that can be reached from the initial one are found by a traversal along arcs. It comes to its
end, and takes each state that it finds once (`WellFormed.traversal_reachableStates`). What it finds are the ends of
walks from the initial state, and following successors so many times is a walk of that length
(`WellFormed.reachedIn_iff`), so states are found in the order of their distances
(`reachableStates_breadthFirst`).
-/

namespace PetriNets

namespace TransitionSystem

variable {ts : TransitionSystem} {u v w : String} {k : Nat}

/-- A state is so far from the initial one: this is the length of a shortest walk. -/
def IsDistance (ts : TransitionSystem) (v : String) (k : Nat) : Prop :=
  IsLeast {k | ∃ u steps, ts.initial = some u ∧ ts.Walk u steps v ∧ steps.length = k} k

theorem reachableStates_eq_nil (hinitial : ts.initial = none) : ts.reachableStates = [] := by
  unfold reachableStates initialState?
  rw [hinitial]
  rfl

namespace WellFormed

variable (h : ts.WellFormed)
include h

theorem reachedIn_iff : ReachedIn ts.successors u k v ↔
    ∃ steps, ts.Walk u steps v ∧ steps.length = k := by
  constructor
  · intro hreached
    induction hreached with
    | zero => exact ⟨[], .nil u, rfl⟩
    | @succ k v w _ step ih =>
      obtain ⟨steps, hwalk, hlength⟩ := ih
      obtain ⟨l, harc⟩ := h.mem_successors_iff.1 step
      refine ⟨steps ++ [(v, l)], walk_concat_iff.2 ⟨hwalk, harc⟩, ?_⟩
      simp [hlength]
  · intro hwalk
    obtain ⟨steps, hwalk, rfl⟩ := hwalk
    induction steps using List.reverseRecOn generalizing v with
    | nil =>
      obtain rfl := walk_nil_iff.1 hwalk
      exact .zero
    | append_singleton steps step ih =>
      obtain ⟨hbefore, harc⟩ := walk_concat_iff.1 hwalk
      rw [List.length_append, List.length_singleton]
      exact (ih hbefore).succ (h.mem_successors_iff.2 ⟨_, harc⟩)

/-- The traversal comes to its end. -/
theorem traversal_reachableStates (hinitial : ts.initial = some u) :
    Traversal ts.successors [u] [u] ts.reachableStates.length ts.reachableStates := by
  rw [h.reachableStates_eq hinitial]
  exact traversal_breadthFirst h.successors_mem (Nat.le_of_eq length_stateIds)
    (h.initial_mem u hinitial)

theorem head?_reachableStates : ts.reachableStates.head? = ts.initial := by
  cases hinitial : ts.initial with
  | none => rw [reachableStates_eq_nil hinitial, List.head?_nil]
  | some u =>
    obtain ⟨rest, hrest⟩ := exists_breadthFirst_eq_cons ts.successors ts.stateCount u
    rw [h.reachableStates_eq hinitial, hrest, List.head?_cons]

theorem nodup_reachableStates : ts.reachableStates.Nodup := by
  cases hinitial : ts.initial with
  | none =>
    rw [reachableStates_eq_nil hinitial]
    exact .nil
  | some u =>
    rw [h.reachableStates_eq hinitial]
    exact nodup_breadthFirst

theorem mem_reachableStates_iff_walk : v ∈ ts.reachableStates ↔
    ∃ u steps, ts.initial = some u ∧ ts.Walk u steps v := by
  cases hinitial : ts.initial with
  | none => simp [reachableStates_eq_nil hinitial]
  | some u => simp [h.mem_reachableStates_iff hinitial, exists_walk_iff]

theorem exists_distances_reachableStates : ∃ d : String → Nat,
    (∀ v ∈ ts.reachableStates, ts.IsDistance v (d v)) ∧
      ts.reachableStates.Pairwise fun v w => d v ≤ d w := by
  cases hinitial : ts.initial with
  | none => exact ⟨fun _ => 0, by simp [reachableStates_eq_nil hinitial]⟩
  | some u =>
    obtain ⟨d, hleast, hascending⟩ := exists_distances h.successors_mem (Nat.le_of_eq length_stateIds)
      (h.initial_mem u hinitial)
    rw [h.reachableStates_eq hinitial]
    refine ⟨d, fun v hv => ?_, hascending⟩
    have hdistance := hleast v hv
    simp only [h.reachedIn_iff] at hdistance
    simpa [IsDistance, hinitial] using hdistance

end WellFormed

/-- Which states can be reached is found by a traversal that comes to its end after as many turns as states are
found. It finds just the ends of walks from the initial state, each once; this state comes first, and there
is none to be found without it. States that are further away do not come before those that are nearer. -/
theorem reachableStates_breadthFirst (built : ts.Built) :
    (∀ u, ts.initial = some u →
      Traversal ts.successors [u] [u] ts.reachableStates.length ts.reachableStates) ∧
    ts.reachableStates.Nodup ∧
    (∀ v, v ∈ ts.reachableStates ↔ ∃ u steps, ts.initial = some u ∧ ts.Walk u steps v) ∧
    ts.reachableStates.head? = ts.initial ∧
    ∃ d : String → Nat, (∀ v ∈ ts.reachableStates, ts.IsDistance v (d v)) ∧
      ts.reachableStates.Pairwise fun v w => d v ≤ d w := by
  have h := built.wellFormed
  exact ⟨fun _ hinitial => h.traversal_reachableStates hinitial, h.nodup_reachableStates,
    fun _ => h.mem_reachableStates_iff_walk, h.head?_reachableStates,
    h.exists_distances_reachableStates⟩

/-- A house with two ways round to the garden, a door that leads nowhere, and a shed apart. -/
def houseDocument : SystemDocument where
  name := "house"
  states := [⟨"garden", ∅⟩, ⟨"shed", ∅⟩, ⟨"kitchen", ∅⟩, ⟨"hall", ∅⟩, ⟨"stairs", ∅⟩]
  arcs := [⟨"kitchen", "garden", "door", ∅⟩, ⟨"hall", "stairs", "climb", ∅⟩,
    ⟨"hall", "kitchen", "walk", ∅⟩, ⟨"hall", "kitchen", "run", ∅⟩, ⟨"stairs", "garden", "window", ∅⟩,
    ⟨"garden", "garden", "door", ∅⟩, ⟨"garden", "hall", "back", ∅⟩, ⟨"shed", "garden", "path", ∅⟩]
  initial := some "hall"
  extensions := ∅

/-- The garden comes last, being two steps away. -/
theorem reachableStates_breadthFirst_houseDocument : ∃ ts, houseDocument.toSystem = .ok ts ∧
    ts.reachableStates = ["hall", "stairs", "kitchen", "garden"] ∧
    Traversal ts.successors ["hall"] ["hall"] 4 ts.reachableStates ∧
    (¬ ∃ steps, ts.Walk "hall" steps "shed") ∧ ∃ k, ts.IsDistance "garden" k := by
  have hhouse : ∃ ts, houseDocument.toSystem = .ok ts ∧ ts.initial = some "hall" ∧
      ts.reachableStates = ["hall", "stairs", "kitchen", "garden"] := ⟨_, rfl, rfl, rfl⟩
  obtain ⟨ts, hts, hinitial, hreachable⟩ := hhouse
  obtain ⟨htraversal, -, hmem, -, d, hdistance, -⟩ :=
    reachableStates_breadthFirst (built_of_toSystem hts)
  have hturns := htraversal "hall" hinitial
  rw [show ts.reachableStates.length = 4 by rw [hreachable]; rfl] at hturns
  refine ⟨ts, hts, hreachable, hturns, fun ⟨steps, hwalk⟩ => ?_, d "garden", hdistance _ ?_⟩
  · have hshed := (hmem "shed").2 ⟨"hall", steps, hinitial, hwalk⟩
    simp [hreachable] at hshed
  · simp [hreachable]

end TransitionSystem

end PetriNets
