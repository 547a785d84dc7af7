import PetriNets.Cycles.Search
import PetriNets.Proofs.TransitionSystem.Built

/-!
# Transition systems that are alike

Two systems are `Alike` if they differ in nothing but extensions and the next fresh name. Everything that
is asked of a system goes by the names of its states and the keys of its arcs, in their order; so alike
systems give the same answers (`Alike.sameAnswers`), down to the order of what a traversal finds and to
the rounds that a search for cycles takes.
-/

namespace PetriNets

namespace CycleSearch

/-- A search reads nothing of an arc but its key. -/
theorem foldl_follow_congr {start : String} {within : String → Bool} {depth : Nat} {as bs : List Arc}
    (h : as.map Edge.key = bs.map Edge.key) (s : CycleSearch) :
    as.foldl (follow start within depth) s = bs.foldl (follow start within depth) s := by
  let step (s : CycleSearch) (k : EdgeKey) := follow start within depth s ⟨k, (), ∅⟩
  have hkeys : ∀ arcs : List Arc, arcs.foldl (follow start within depth) s =
      (arcs.map Edge.key).foldl step s := by
    intro arcs
    rw [List.foldl_map]
    rfl
  rw [hkeys, hkeys, h]

end CycleSearch

namespace TransitionSystem

variable {ts ts' : TransitionSystem}

/-- The same name and, in the same order, the same states and arcs, with the same initial state. -/
structure Alike (ts ts' : TransitionSystem) : Prop where
  name : ts'.name = ts.name
  stateIds : ts'.stateIds = ts.stateIds
  arcs : ts'.arcs.map Edge.key = ts.arcs.map Edge.key
  initial : ts'.initial = ts.initial

/-- The label of an arc with this key. -/
def keyLabel (k : EdgeKey) : String := k.label.getD ""

theorem map_label (as : List Arc) : as.map Arc.label = (as.map Edge.key).map keyLabel := by
  rw [List.map_map]
  rfl

namespace Alike

variable (h : ts.Alike ts')
include h

theorem stateCount : ts'.stateCount = ts.stateCount := by
  rw [← length_stateIds, ← length_stateIds, h.stateIds]

theorem alphabet : ts'.alphabet = ts.alphabet := by
  unfold TransitionSystem.alphabet
  rw [map_label, map_label, h.arcs]

variable (hwell : ts.WellFormed) (hwell' : ts'.WellFormed)
include hwell hwell'

theorem outgoing (v : String) : (ts'.outgoing v).map Edge.key = (ts.outgoing v).map Edge.key := by
  have hkeys : ∀ as : List Arc, (as.filter fun a => a.key.source = v).map Edge.key =
      (as.map Edge.key).filter fun k => k.source = v := by
    intro as
    rw [List.filter_map]
    rfl
  rw [hwell.outgoing_eq, hwell'.outgoing_eq, hkeys, hkeys, h.arcs]

theorem successors : ts'.successors = ts.successors := by
  funext v
  have htargets : ∀ as : List Arc, as.map (fun a => a.key.target) =
      (as.map Edge.key).map EdgeKey.target := fun as => List.map_map.symm
  unfold TransitionSystem.successors
  rw [htargets, htargets, h.outgoing hwell hwell']

theorem predecessors : ts'.predecessors = ts.predecessors := by
  funext v
  have hsources : ∀ as : List Arc, (as.filter fun a => a.key.target = v).map (fun a => a.key.source) =
      ((as.map Edge.key).filter fun k => k.target = v).map EdgeKey.source := by
    intro as
    rw [List.filter_map, List.map_map]
    rfl
  unfold TransitionSystem.predecessors
  rw [hwell.graph.presetEdges_getD, hwell'.graph.presetEdges_getD]
  exact (hsources ts'.arcs).trans (h.arcs ▸ (hsources ts.arcs).symm)

theorem initialId : ts'.initialState?.map Node.id = ts.initialState?.map Node.id := by
  rw [hwell.map_id_initialState?, hwell'.map_id_initialState?, h.initial]

theorem reachableStates : ts'.reachableStates = ts.reachableStates := by
  have hfrom : ∀ s : TransitionSystem, s.reachableStates =
      ((s.initialState?.map Node.id).map (breadthFirst s.successors s.stateCount)).getD [] := by
    intro s
    unfold TransitionSystem.reachableStates
    cases s.initialState? <;> rfl
  rw [hfrom, hfrom, h.initialId hwell hwell', h.successors hwell hwell', h.stateCount]

theorem nondeterminism : ts'.nondeterminism?.map (Prod.map Node.id id) =
    ts.nondeterminism?.map (Prod.map Node.id id) := by
  have hfrom : ∀ s : TransitionSystem, s.nondeterminism?.map (Prod.map Node.id id) =
      s.stateIds.findSome? fun v => (firstRepeated [] ((s.outgoing v).map Arc.label)).map (v, ·) := by
    intro s
    unfold TransitionSystem.nondeterminism? TransitionSystem.stateIds Graph.nodeIds
    rw [List.map_findSome?, List.findSome?_map]
    congr 1
    funext n
    rw [Function.comp_apply, Option.map_map]
    rfl
  rw [hfrom, hfrom, h.stateIds]
  congr 1
  funext v
  rw [map_label, map_label, h.outgoing hwell hwell']

/-! ## Cycles -/

theorem components : ts'.components = ts.components := by
  unfold TransitionSystem.components TransitionSystem.component
  rw [h.stateIds, h.stateCount, h.successors hwell hwell', h.predecessors hwell hwell']

theorem run (start : String) (within : String → Bool) (rounds : Nat) (s : CycleSearch) :
    CycleSearch.run ts' start within rounds s = CycleSearch.run ts start within rounds s := by
  induction rounds generalizing s with
  | zero =>
    unfold CycleSearch.run
    cases s.queue <;> rfl
  | succ rounds ih =>
    unfold CycleSearch.run
    cases s.queue with
    | nil => rfl
    | cons v queue =>
      dsimp only
      rw [CycleSearch.foldl_follow_congr (h.outgoing hwell hwell' v), ih]

theorem cyclesThrough (components : List (List String)) (start : String) (rounds : Nat) :
    ts'.cyclesThrough components start rounds = ts.cyclesThrough components start rounds := by
  have hcyclic : ts'.isCyclic = ts.isCyclic := by
    funext component
    unfold TransitionSystem.isCyclic
    rw [h.successors hwell hwell']
  unfold TransitionSystem.cyclesThrough
  rw [hcyclic]
  simp only [h.run hwell hwell']

theorem cyclesFrom (components : List (List String)) (starts : List String) (rounds : Nat)
    (found : List Cycle) : ts'.cyclesFrom components starts rounds found =
      ts.cyclesFrom components starts rounds found := by
  induction starts generalizing rounds found with
  | nil => rfl
  | cons start starts ih =>
    cases rounds with
    | zero => rfl
    | succ rounds =>
      unfold TransitionSystem.cyclesFrom
      rw [h.cyclesThrough hwell hwell']
      exact bind_congr fun through => ih _ _

theorem smallestCyclesBy (components : List (List String)) (rounds : Nat) (mode : CycleMode) :
    smallestCyclesBy components rounds ts' mode = smallestCyclesBy components rounds ts mode := by
  have hstarts : ts'.cycleStarts mode = ts.cycleStarts mode := by
    have hinitial := h.initialId hwell hwell'
    unfold TransitionSystem.cycleStarts
    cases mode with
    | allStates => exact congrArg Except.ok h.stateIds
    | initialState =>
      cases hs : ts.initialState? <;> cases hs' : ts'.initialState? <;> simp_all
  unfold TransitionSystem.smallestCyclesBy
  simp only [hstarts, h.cyclesFrom hwell hwell']

end Alike

/-- What a system is asked for about its labels, its states and its cycles. -/
structure SameAnswers (ts ts' : TransitionSystem) : Prop where
  alphabet : ts'.alphabet = ts.alphabet
  reachableStates : ts'.reachableStates = ts.reachableStates
  nondeterminism : ts'.nondeterminism?.map (Prod.map Node.id id) =
    ts.nondeterminism?.map (Prod.map Node.id id)
  smallestCyclesWithin : ∀ rounds mode,
    smallestCyclesWithin rounds ts' mode = smallestCyclesWithin rounds ts mode
  smallestCycles : ∀ mode, ts'.smallestCycles mode = ts.smallestCycles mode

theorem Alike.sameAnswers (h : ts.Alike ts') (hwell : ts.WellFormed) (hwell' : ts'.WellFormed) :
    ts.SameAnswers ts' := by
  have hwithin : ∀ rounds mode, TransitionSystem.smallestCyclesWithin rounds ts' mode =
      TransitionSystem.smallestCyclesWithin rounds ts mode := by
    intro rounds mode
    unfold TransitionSystem.smallestCyclesWithin
    rw [h.components hwell hwell']
    exact h.smallestCyclesBy hwell hwell' _ rounds mode
  refine ⟨h.alphabet, h.reachableStates hwell hwell', h.nondeterminism hwell hwell', hwithin,
    fun mode => ?_⟩
  unfold TransitionSystem.smallestCycles
  rw [h.stateCount]
  exact hwithin _ mode

end TransitionSystem

end PetriNets
