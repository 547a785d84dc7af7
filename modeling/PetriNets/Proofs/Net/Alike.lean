import PetriNets.Boundedness
import PetriNets.Proofs.Net.Tables

/-!
# Nets that are alike

Two nets are `Alike` if they differ in nothing but extensions. In well-formed nets the arcs of a
transition can be read off the list of flows, so alike nets have the same arcs in the same order
(`Alike.arcsNamed`). Firing and exploring a net look at its arcs, its names, its initial marking and
nothing else, and so alike nets give the same answers (`Alike.sameAnswers`).
-/

namespace PetriNets

namespace Net

variable {net net' : Net}

/-- The same name and, each in the same order, the same places with their tokens, transitions with
their labels and flows with their weights. -/
structure Alike (net net' : Net) : Prop where
  name : net'.name = net.name
  places : net'.places.map (fun p => (p.id, p.tokens)) = net.places.map fun p => (p.id, p.tokens)
  transitions : net'.transitions.map (fun t => (t.id, t.label)) =
    net.transitions.map fun t => (t.id, t.label)
  flows : net'.flows.map (fun f => (f.key, f.data)) = net.flows.map fun f => (f.key, f.data)

/-- The arcs of those flows whose keys pass a test. -/
theorem row_filter (far : EdgeKey → String) (test : EdgeKey → Bool) (fs : List Flow) :
    net.row (fun f => far f.key) (fs.filter fun f => test f.key) =
      ((fs.map fun f => (f.key, f.data)).filter fun e => test e.1).filterMap fun e =>
        (net.placeIndex? (far e.1)).map (·, e.2) := by
  rw [List.filter_map, List.filterMap_map]
  rfl

namespace Alike

variable (h : net.Alike net')
include h

theorem placeIds : net'.placeIds = net.placeIds := by
  have heq := congrArg (List.map Prod.fst) h.places
  rwa [List.map_map, List.map_map] at heq

theorem transitionIds : net'.transitionIds = net.transitionIds := by
  have heq := congrArg (List.map Prod.fst) h.transitions
  rwa [List.map_map, List.map_map] at heq

theorem tokens : net'.places.map Place.tokens = net.places.map Place.tokens := by
  have heq := congrArg (List.map Prod.snd) h.places
  rwa [List.map_map, List.map_map] at heq

theorem labels : net'.transitions.map Transition.label = net.transitions.map Transition.label := by
  have heq := congrArg (List.map Prod.snd) h.transitions
  rwa [List.map_map, List.map_map] at heq

theorem placeCount : net'.placeCount = net.placeCount := by
  rw [← length_placeIds, ← length_placeIds, h.placeIds]

theorem transitionCount : net'.transitionCount = net.transitionCount := by
  rw [← length_transitionIds, ← length_transitionIds, h.transitionIds]

theorem placeIndex? : net'.placeIndex? = net.placeIndex? := by
  funext v
  unfold Net.placeIndex?
  rw [h.placeIds]

theorem transitionIndex? : net'.transitionIndex? = net.transitionIndex? := by
  funext v
  unfold Net.transitionIndex?
  rw [h.transitionIds]

theorem placeName : net'.placeName = net.placeName := by
  funext p
  unfold Net.placeName
  rw [h.placeIds]

theorem transitionName : net'.transitionName = net.transitionName := by
  funext t
  unfold Net.transitionName
  rw [h.transitionIds]

theorem initialMarking : net'.initialMarking = net.initialMarking := by
  unfold Net.initialMarking
  rw [h.tokens]

theorem mem_nodeIds_iff (v : String) : v ∈ net'.graph.nodeIds ↔ v ∈ net.graph.nodeIds := by
  unfold Graph.nodeIds
  rw [mem_ids_iff, mem_ids_iff, ← placeIds_eq, ← placeIds_eq, ← transitionIds_eq, ← transitionIds_eq,
    h.placeIds, h.transitionIds]

theorem placeIndex : net'.placeIndex = net.placeIndex := by
  funext v
  have hcontains : net'.graph.containsNode v = net.graph.containsNode v := by
    rw [Bool.eq_iff_iff, Graph.containsNode_iff, Graph.containsNode_iff]
    exact h.mem_nodeIds_iff v
  unfold Net.placeIndex
  rw [h.placeIndex?, hcontains]

theorem checkMarking : net'.checkMarking = net.checkMarking := by
  funext m
  unfold Net.checkMarking
  rw [h.placeCount]

theorem resolve : net'.resolve = net.resolve := by
  funext t
  unfold Net.resolve
  rw [h.transitionCount, h.transitionIndex?]

theorem faultError : net'.faultError = net.faultError := by
  funext t fault
  cases fault <;> simp only [Net.faultError, h.placeName, h.transitionName]

theorem reverseFaultError : net'.reverseFaultError = net.reverseFaultError := by
  funext t fault
  cases fault <;> simp only [Net.reverseFaultError, h.placeName, h.transitionName]

variable (hwell : net.WellFormed) (hwell' : net'.WellFormed)
include hwell hwell'

theorem arcsNamed : net'.arcsNamed = net.arcsNamed := by
  funext id
  have hpre : (net'.arcsNamed id).pre = (net.arcsNamed id).pre := by
    rw [hwell'.pre_arcsNamed, hwell.pre_arcsNamed, row_filter EdgeKey.source fun k => k.target = id,
      row_filter EdgeKey.source fun k => k.target = id, h.flows, h.placeIndex?]
  have hpost : (net'.arcsNamed id).post = (net.arcsNamed id).post := by
    rw [hwell'.post_arcsNamed, hwell.post_arcsNamed, row_filter EdgeKey.target fun k => k.source = id,
      row_filter EdgeKey.target fun k => k.source = id, h.flows, h.placeIndex?]
  exact congrArg₂ Arcs.mk hpre hpost

theorem incidence : net'.incidence = net.incidence := by
  unfold Net.incidence
  rw [h.placeCount, h.transitionIds, h.arcsNamed hwell hwell']

theorem fireWithin (cap : Capacity) : net'.fireWithin cap = net.fireWithin cap := by
  funext m t
  unfold Net.fireWithin
  rw [h.checkMarking, h.resolve, h.transitionName, h.faultError, h.arcsNamed hwell hwell']

theorem reverseFireWithin (cap : Capacity) : net'.reverseFireWithin cap = net.reverseFireWithin cap := by
  funext m t
  unfold Net.reverseFireWithin
  rw [h.checkMarking, h.resolve, h.transitionName, h.reverseFaultError, h.arcsNamed hwell hwell']

theorem fireSequenceFrom (cap : Capacity) (position : Nat) (m : Marking) (ts : List TransitionRef) :
    net'.fireSequenceFrom cap position m ts = net.fireSequenceFrom cap position m ts := by
  induction ts generalizing position m with
  | nil => rfl
  | cons t ts ih =>
    unfold Net.fireSequenceFrom
    rw [h.fireWithin hwell hwell']
    exact bind_congr fun next => ih (position + 1) next

theorem exploreWithin (cap : Capacity) (rounds : Nat) (config : AnalysisConfig) :
    CoverabilityGraph.exploreWithin cap rounds config net' =
      CoverabilityGraph.exploreWithin cap rounds config net := by
  have hproblem : net'.problem cap config = net.problem cap config := by
    unfold Net.problem
    rw [h.incidence hwell hwell', h.initialMarking, h.placeName]
  have hgraph : CoverabilityGraph.ofExploration net' = CoverabilityGraph.ofExploration net := by
    funext x
    unfold CoverabilityGraph.ofExploration
    rw [h.name, h.labels]
  have hhalt : net'.haltError = net.haltError := by
    funext halt
    cases halt <;> simp only [Net.haltError, h.faultError]
  unfold CoverabilityGraph.exploreWithin
  rw [hproblem, hgraph, hhalt]

end Alike

/-- What a net is asked for by number, by firing and by exploring it. -/
structure SameAnswers (net net' : Net) : Prop where
  placeIndex? : ∀ v, net'.placeIndex? v = net.placeIndex? v
  transitionIndex? : ∀ v, net'.transitionIndex? v = net.transitionIndex? v
  initialMarking : net'.initialMarking = net.initialMarking
  incidence : net'.incidence = net.incidence
  isEnabled : ∀ m t, net'.isEnabled m t = net.isEnabled m t
  enabledTransitions : ∀ m, net'.enabledTransitions m = net.enabledTransitions m
  fire : ∀ m t, net'.fire m t = net.fire m t
  reverseFire : ∀ m t, net'.reverseFire m t = net.reverseFire m t
  fireSequence : ∀ m ts, net'.fireSequence m ts = net.fireSequence m ts
  buildWithin : ∀ rounds config, CoverabilityGraph.buildWithin rounds config net' =
    CoverabilityGraph.buildWithin rounds config net
  build : ∀ config, CoverabilityGraph.build config net' = CoverabilityGraph.build config net
  checkBounded : ∀ config, Net.checkBounded config net' = Net.checkBounded config net
  checkBoundedWithin : ∀ rounds config,
    Net.checkBoundedWithin rounds config net' = Net.checkBoundedWithin rounds config net
  checkPlaceBounded : ∀ config place,
    Net.checkPlaceBounded config net' place = Net.checkPlaceBounded config net place
  checkPlaceBoundedWithin : ∀ rounds config place,
    Net.checkPlaceBoundedWithin rounds config net' place =
      Net.checkPlaceBoundedWithin rounds config net place

theorem Alike.sameAnswers (h : net.Alike net') (hwell : net.WellFormed) (hwell' : net'.WellFormed) :
    net.SameAnswers net' := by
  have hbuild : ∀ config, CoverabilityGraph.build config net' = CoverabilityGraph.build config net := by
    intro config
    unfold CoverabilityGraph.build
    rw [h.initialMarking]
    exact h.exploreWithin hwell hwell' _ _ config
  have hwithin : ∀ rounds config, CoverabilityGraph.buildWithin rounds config net' =
      CoverabilityGraph.buildWithin rounds config net := h.exploreWithin hwell hwell' .word
  refine ⟨congrFun h.placeIndex?, congrFun h.transitionIndex?, h.initialMarking,
    h.incidence hwell hwell', fun m t => ?_, fun m => ?_, fun m t => ?_, fun m t => ?_, fun m ts => ?_,
    hwithin, hbuild, fun config => ?_, fun rounds config => ?_, fun config place => ?_,
    fun rounds config place => ?_⟩
  · unfold Net.isEnabled Net.arcs
    rw [h.checkMarking, h.resolve, h.transitionName, h.arcsNamed hwell hwell']
  · unfold Net.enabledTransitions
    rw [h.transitionCount, h.transitionName, h.arcsNamed hwell hwell']
  · exact congrFun (congrFun (h.fireWithin hwell hwell' .word) m) t
  · exact congrFun (congrFun (h.reverseFireWithin hwell hwell' .word) m) t
  · exact h.fireSequenceFrom hwell hwell' .word 0 m ts
  · unfold Net.checkBounded
    rw [hbuild]
  · unfold Net.checkBoundedWithin
    rw [hwithin]
  · unfold Net.checkPlaceBounded Net.checkPlaceOn
    rw [h.placeIndex, hbuild]
  · unfold Net.checkPlaceBoundedWithin Net.checkPlaceOn
    rw [h.placeIndex, hwithin]

end Net

end PetriNets
