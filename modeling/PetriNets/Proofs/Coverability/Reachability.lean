import PetriNets.Proofs.Coverability.Simulation
import PetriNets.Proofs.Coverability.Termination
import PetriNets.Proofs.Coverability.Trail

/-!
# Graphs without `ω`

Where no node holds `ω`, acceleration has changed nothing: the edges of the graph are the steps between
the markings of its nodes (`mem_edges_iff`), these markings are just the reachable ones
(`hasMarking_iff_mem_reachable`), no two nodes have the same one, and the trail of each node is a firing
sequence that leads to it.
-/

namespace PetriNets

namespace Exploration

variable {p : Problem} {x y : Exploration} {id i j target : NodeId} {node : CoverNode}
  {t : TransitionId} {a : Arcs} {fired m m' : Marking} {trail trail' : Trail} {rounds : Nat}

theorem Found.unique (h : x.Found i m trail) (h' : x.Found i m' trail') : m = m' ∧ trail = trail' := by
  obtain ⟨status, hi⟩ := h
  obtain ⟨status', hi'⟩ := h'
  rw [hi] at hi'
  cases hi'
  exact ⟨rfl, rfl⟩

/-- Every edge stands for a step: what is fired at its source and accelerated is its target. -/
def EdgesFired (p : Problem) (x : Exploration) : Prop :=
  ∀ e ∈ x.edges, ∃ m trail fired trail', x.Found e.source m trail ∧
    p.incidence.Step p.capacity m e.transition fired ∧
    x.Found e.target (fired.accelerate (⟨e.source, m, e.transition⟩ :: trail)) trail'

theorem EdgesFired.mono (hxy : Extends x y) (hedges : ∀ e ∈ y.edges, e ∈ x.edges)
    (h : EdgesFired p x) : EdgesFired p y := by
  intro e he
  obtain ⟨m, trail, fired, trail', hsource, hstep, htarget⟩ := h e (hedges e he)
  exact ⟨m, trail, fired, trail', hxy.found hsource, hstep, hxy.found htarget⟩

theorem EdgesFired.follow (h : EdgesFired p x) (hnode : x.nodes.get? id = some node)
    (hmem : (t, a) ∈ p.incidence.enabledArcs node.marking)
    (hfire : a.fire p.capacity node.marking = .ok fired)
    (hstep : Followed p id node x t fired target y) : EdgesFired p y := by
  intro e he
  rw [hstep.edges_eq, Array.mem_push] at he
  rcases he with he | rfl
  · obtain ⟨m, trail, fired, trail', hsource, hfired, htarget⟩ := h e he
    exact ⟨m, trail, fired, trail', hstep.grows.found hsource, hfired, hstep.grows.found htarget⟩
  · obtain ⟨trail', htarget⟩ := hstep.found_target
    exact ⟨node.marking, node.trail, fired, trail', hstep.grows.found (found_of_get? hnode),
      ⟨a, (Incidence.mem_enabledArcs.1 hmem).1, hfire⟩, htarget⟩

theorem edgesFired_of_run (h : p.run rounds = .ok x) : EdgesFired p x := by
  refine run_invariant (I := EdgesFired p) (fun _ _ hx => hx)
    (fun _ _ _ _ _ _ _ _ hnode hmem hfire hstep hx => hx.follow hnode hmem hfire hstep)
    (fun _ _ status _ hnode hx => hx.mono (grows_setStatus status hnode) fun _ he => he) ?_ h
  intro e he
  exact absurd he (Array.not_mem_empty e)

end Exploration

namespace CoverabilityGraph

variable {net : Net} {cap : Capacity} {rounds : Nat} {config : AnalysisConfig}
  {g : CoverabilityGraph} {i j : NodeId} {n n' : CoverNode} {t : TransitionId} {m m' : Marking}
  {ts : List TransitionId}

/-- No two nodes have the same marking. -/
theorem id_eq_of_marking_eq (h : exploreWithin cap rounds config net = .ok g)
    (hi : g.nodes.get? i = some n) (hj : g.nodes.get? j = some n') (hm : n.marking = n'.marking) :
    i = j := by
  obtain ⟨x, hrun, rfl⟩ := exploreWithin_eq_ok_iff.1 h
  have hspan := (Exploration.spanning_start (net.problem cap config)).run hrun
  exact hspan.distinct (Exploration.found_of_get? hi) (hm ▸ Exploration.found_of_get? hj)

theorem exists_root (h : exploreWithin cap rounds config net = .ok g) :
    ∃ n, g.nodes.get? initial = some n ∧ n.marking = net.initialMarking := by
  obtain ⟨x, hrun, rfl⟩ := exploreWithin_eq_ok_iff.1 h
  obtain ⟨status, hroot⟩ := Problem.found_root hrun
  exact ⟨_, hroot, rfl⟩

theorem exists_ends_of_mem_edges (h : exploreWithin cap rounds config net = .ok g)
    (hedge : ⟨i, j, t⟩ ∈ g.edges) :
    ∃ n n', g.nodes.get? i = some n ∧ g.nodes.get? j = some n' := by
  obtain ⟨x, hrun, rfl⟩ := exploreWithin_eq_ok_iff.1 h
  obtain ⟨m, trail, fired, trail', ⟨status, hi⟩, -, status', hj⟩ :=
    Exploration.edgesFired_of_run hrun _ hedge
  exact ⟨_, _, hi, hj⟩

section WithoutOmega

variable (h : exploreWithin cap rounds config net = .ok g) (homega : g.hasOmega = false)
include h homega

/-- The trail of a node is a firing sequence. -/
theorem fireSequence_firingSequence (hi : g.nodes.get? i = some n) :
    net.fireSequenceWithin cap net.initialMarking ((g.firingSequence i).map .number) =
      .ok n.marking := by
  have hm : n.marking.hasOmega = false :=
    hasOmega_eq_false_iff.1 homega _ (hasMarking_of_get? hi)
  have hsequence := firingSequence_of_get? hi
  obtain ⟨x, hrun, rfl⟩ := exploreWithin_eq_ok_iff.1 h
  rw [hsequence, Net.fireSequenceWithin_eq_ok_iff net.size_initialMarking]
  exact (Problem.derives_of_run hrun (Exploration.found_of_get? hi)).run hm

/-- Edges are the steps between the markings of nodes. -/
theorem mem_edges_iff (hi : g.nodes.get? i = some n) (hj : g.nodes.get? j = some n') :
    ⟨i, j, t⟩ ∈ g.edges ↔ net.incidence.Step cap n.marking t n'.marking := by
  obtain ⟨x, hrun, rfl⟩ := exploreWithin_eq_ok_iff.1 h
  have hi' : x.Found i n.marking n.trail := Exploration.found_of_get? hi
  have hj' : x.Found j n'.marking n'.trail := Exploration.found_of_get? hj
  have hnone : ∀ {k m trail}, x.Found k m trail → m.hasOmega = false := fun hk =>
    hasOmega_eq_false_iff.1 homega _ (hasMarking_ofExploration_iff.2 ⟨_, _, hk⟩)
  constructor
  · intro hedge
    obtain ⟨m, trail, fired, trail', hsource, hstep, htarget⟩ :=
      Exploration.edgesFired_of_run hrun _ hedge
    obtain ⟨rfl, rfl⟩ := hi'.unique hsource
    have hfired := Marking.accelerate_eq_of_hasOmega_eq_false (hnone htarget)
    rw [hfired] at htarget
    rw [(hj'.unique htarget).1]
    exact hstep
  · rintro ⟨a, ha, hfire⟩
    have henabled : (t, a) ∈ net.incidence.enabledArcs n.marking :=
      Incidence.mem_enabledArcs.2 ⟨ha, Arcs.isEnabled_of_fire hfire⟩
    obtain ⟨fired, target, hfire', hedge, trail', htarget⟩ :=
      Problem.closed_of_run hrun hi' t a henabled
    obtain rfl : fired = n'.marking := Except.ok.inj (hfire'.symm.trans hfire)
    rw [Marking.accelerate_eq_of_hasOmega_eq_false (hnone htarget)] at htarget
    have hspan := (Exploration.spanning_start (net.problem cap config)).run hrun
    rwa [hspan.distinct hj' htarget]

/-- Every firing sequence leads in the graph to the node that has the marking it gives. -/
theorem exists_node_of_reaches (hts : net.Reaches ts m) :
    ∃ i n, g.nodes.get? i = some n ∧ n.marking = m ∧ g.Leads ts i := by
  induction ts using List.reverseRecOn generalizing m with
  | nil =>
    obtain ⟨n, hn, hm⟩ := exists_root h
    obtain rfl : net.initialMarking = m := Except.ok.inj hts
    exact ⟨initial, n, hn, hm, leads_nil g⟩
  | append_singleton ts t ih =>
    obtain ⟨l, hl, hstep⟩ := Incidence.Run.concat_iff.1 (Net.reaches_iff.1 hts)
    obtain ⟨i, n, hi, rfl, hleads⟩ := ih (Net.reaches_iff.2 hl)
    obtain ⟨x, hrun, rfl⟩ := exploreWithin_eq_ok_iff.1 h
    obtain ⟨j, m', trail', hedge, hj, hle⟩ :=
      Problem.exists_edge_of_step hrun (Exploration.found_of_get? hi) (le_refl _) hstep
    obtain ⟨status, hj⟩ := hj
    have hstep' := ((mem_edges_iff h homega hi hj).1 hedge).unlimited
    obtain ⟨a, ha, hfire⟩ := hstep
    obtain ⟨a', ha', hfire'⟩ := hstep'
    obtain rfl := Option.some.inj (ha.symm.trans ha')
    exact ⟨j, _, hj, Except.ok.inj (hfire'.symm.trans hfire), hleads.concat hedge⟩

theorem hasMarking_iff_mem_reachable : g.HasMarking m ↔ m ∈ net.reachable := by
  constructor
  · intro hm
    obtain ⟨i, n, hi, rfl⟩ := exists_node hm
    have hrun := fireSequence_firingSequence h homega hi
    rw [Net.fireSequenceWithin_eq_ok_iff net.size_initialMarking] at hrun
    exact ⟨_, Net.reaches_iff.2 hrun.unlimited⟩
  · rintro ⟨ts, hts⟩
    obtain ⟨i, n, hi, rfl, -⟩ := exists_node_of_reaches h homega hts
    exact hasMarking_of_get? hi

/-- Edges lead from the initial node to each node. -/
theorem reachable_node (hi : g.nodes.get? i = some n) :
    Relation.ReflTransGen (fun i j => ∃ t, ⟨i, j, t⟩ ∈ g.edges) initial i := by
  have hm : n.marking ∈ net.reachable :=
    (hasMarking_iff_mem_reachable h homega).1 (hasMarking_of_get? hi)
  obtain ⟨ts, hts⟩ := hm
  obtain ⟨j, n', hj, hmarking, path, hpath, hend⟩ := exists_node_of_reaches h homega hts
  rw [id_eq_of_marking_eq h hi hj hmarking.symm]
  exact hpath.induction (C := fun _ => Relation.ReflTransGen _ initial) .refl
    (fun _ e he hreached => hreached.tail ⟨e.transition, he⟩) hend

end WithoutOmega

end CoverabilityGraph

end PetriNets
