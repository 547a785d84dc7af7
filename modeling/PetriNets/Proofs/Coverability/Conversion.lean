import PetriNets.Proofs.Coverability.Structure
import PetriNets.Proofs.Coverability.System
import PetriNets.Proofs.Cycles.Walk
import PetriNets.Proofs.TransitionSystem.Determinism

/-!
# From coverability graphs to transition systems

A system is put together from a graph by calls whose refusals are passed over. None but those of arcs
that are there already is refused: the names of states are numbered, hence different, and arcs are added
between states that are there (`addArc_eq_error_iff`). So the system has a state for each node and an arc
for each triple that some edge stands for, with `ω` or without. It can therefore do what the net can
(`exists_walk_of_reaches`), and where the labels of the net are different no two edges share an arc
(`arcOf_injOn_edges`) and a label leads from a state to one state only.
-/

namespace PetriNets

/-- Where the labels are different, a label tells the transition. -/
theorem Net.eq_of_label_eq {net : Net} (h : (net.transitions.map Transition.label).Nodup)
    {t t' : TransitionId} {transition transition' : Transition}
    (ht : net.transitionAt? t = some transition) (ht' : net.transitionAt? t' = some transition')
    (hlabel : transition.label = transition'.label) : t = t' := by
  have hget : ∀ {t transition}, net.transitionAt? t = some transition →
      (net.transitions.map Transition.label)[t.index]? = some transition.label := by
    intro t transition ht
    rw [List.getElem?_map, show net.transitions[t.index]? = _ from ht]
    rfl
  have hlt := (List.getElem?_eq_some_iff.1 (hget ht)).1
  have hindex : t.index = t'.index :=
    (List.getElem?_inj hlt h).1 ((hget ht).trans (hlabel ▸ (hget ht').symm))
  cases t
  exact congrArg Id.mk hindex

namespace CoverabilityGraph

variable {net : Net} {cap : Capacity} {rounds : Nat} {config : AnalysisConfig}
  {g : CoverabilityGraph} {e : CoverEdge} {m : Marking} {t t' : TransitionId} {ts : List TransitionId}

section Explored

variable (h : exploreWithin cap rounds config net = .ok g)
include h

/-- The arc of an edge carries the label that its transition has in the net. -/
theorem exists_label_of_mem_edges (he : e ∈ g.edges) : ∃ transition,
    net.transitionAt? e.transition = some transition ∧
      (g.label? e.transition).getD "" = transition.label := by
  obtain ⟨n, n', fired, -, -, hfire, -⟩ := exists_step_of_mem_edges h he
  obtain ⟨transition, htransition⟩ :=
    Net.exists_transitionAt?_of_step (Net.fireWithin_eq_ok_iff.1 hfire).2
  refine ⟨transition, htransition, ?_⟩
  rw [label?_eq h, htransition]
  rfl

/-- A node and a transition determine the node to which an edge leads. -/
theorem target_eq {e' : CoverEdge} (he : e ∈ g.edges) (he' : e' ∈ g.edges)
    (hsource : e.source = e'.source) (ht : e.transition = e'.transition) : e.target = e'.target := by
  obtain ⟨n, n', fired, hn, hn', hfire, hm, -⟩ := exists_step_of_mem_edges h he
  obtain ⟨k, k', fired', hk, hk', hfire', hm', -⟩ := exists_step_of_mem_edges h he'
  rw [← hsource] at hk hm'
  rw [← ht] at hfire' hm'
  obtain rfl := Option.some.inj (hn.symm.trans hk)
  obtain rfl := Except.ok.inj (hfire.symm.trans hfire')
  exact id_eq_of_marking_eq h hn' hk' (hm.trans hm'.symm)

/-- While the system is put together, the arc of an edge is refused if there was an edge of the same
triple before, and for no other reason. -/
theorem addArc_systemAfter_eq_error_iff {es rest : List CoverEdge} {err : GraphError}
    (hedges : g.edges.toList = es ++ e :: rest) :
    (g.systemAfter es).addArc (g.arcOf e) = .error err ↔
      g.arcOf e ∈ es.map g.arcOf ∧ .duplicateEdge (g.arcOf e).key = err := by
  have hends : ∀ e' ∈ es ++ e :: rest, e'.source.index < g.nodeCount ∧ e'.target.index < g.nodeCount :=
    fun e' he' => ends_lt_of_mem_edges h (Array.mem_toList_iff.1 (hedges ▸ he'))
  obtain ⟨hwell, hstates, harcs⟩ :=
    systemAfter_spec (g := g) es fun e' he' => hends e' (List.mem_append_left _ he')
  obtain ⟨hsource, htarget⟩ := hends e (List.mem_append_right _ List.mem_cons_self)
  rw [addArc_eq_error_iff hwell (stateId_mem_of_states hstates hsource)
    (stateId_mem_of_states hstates htarget), mem_keys_iff_of_arcs harcs]

/-- What the net can fire labels a walk, to the state of a node that covers the marking. -/
theorem exists_walk_of_reaches (hts : net.Reaches ts m) : ∃ steps i n,
    g.system.Walk (stateName 0) steps (stateId i) ∧ g.nodes.get? i = some n ∧ m ≤ n.marking ∧
      steps.map (fun s => some s.2) = ts.map fun t => (net.transitionAt? t).map Transition.label := by
  induction ts using List.reverseRecOn generalizing m with
  | nil =>
    obtain ⟨n, hn, hm⟩ := exists_root h
    obtain rfl : net.initialMarking = m := Except.ok.inj hts
    exact ⟨[], initial, n, .nil _, hn, hm.ge, rfl⟩
  | append_singleton ts t ih =>
    obtain ⟨l, hl, hstep⟩ := Incidence.Run.concat_iff.1 (Net.reaches_iff.1 hts)
    obtain ⟨steps, i, n, hwalk, hn, hle, hlabels⟩ := ih (Net.reaches_iff.2 hl)
    -- the node holds no less than the net, so it has an edge for the transition that comes next
    obtain ⟨x, hrun, rfl⟩ := exploreWithin_eq_ok_iff.1 h
    obtain ⟨j, m', trail', hedge, ⟨status, hj⟩, hle'⟩ :=
      Problem.exists_edge_of_step hrun (Exploration.found_of_get? hn) hle hstep
    obtain ⟨transition, htransition⟩ := Net.exists_transitionAt?_of_step hstep
    have harc : (ofExploration net x).system.HasArc (stateId i) transition.label (stateId j) := by
      refine (hasArc_system_iff h).2 ⟨i, j, t, hedge, rfl, rfl, ?_⟩
      rw [label?_eq h, htransition]
      rfl
    refine ⟨steps ++ [(stateId i, transition.label)], j, _,
      TransitionSystem.walk_concat_iff.2 ⟨hwalk, harc⟩, hj, hle', ?_⟩
    rw [List.map_append, List.map_append, hlabels, List.map_singleton, List.map_singleton, htransition]
    rfl

/-! ## Different labels -/

variable (hlabels : (net.transitions.map Transition.label).Nodup)
include hlabels

theorem transition_eq_of_label_eq {e' : CoverEdge} (he : e ∈ g.edges) (he' : e' ∈ g.edges)
    (hlabel : (g.label? e.transition).getD "" = (g.label? e'.transition).getD "") :
    e.transition = e'.transition := by
  obtain ⟨transition, htransition, heq⟩ := exists_label_of_mem_edges h he
  obtain ⟨transition', htransition', heq'⟩ := exists_label_of_mem_edges h he'
  exact Net.eq_of_label_eq hlabels htransition htransition' (heq.symm.trans (hlabel.trans heq'))

/-- No two edges stand for the same triple. -/
theorem arcOf_injOn_edges {e' : CoverEdge} (he : e ∈ g.edges) (he' : e' ∈ g.edges)
    (harc : g.arcOf e = g.arcOf e') : e = e' := by
  have hkey := congrArg Edge.key harc
  unfold arcOf Arc.between at hkey
  rw [EdgeKey.mk.injEq, Option.some.injEq] at hkey
  obtain ⟨hsource, htarget, hlabel⟩ := hkey
  have ht := transition_eq_of_label_eq h hlabels he he' hlabel
  obtain ⟨⟨i⟩, ⟨j⟩, t⟩ := e
  obtain ⟨⟨i'⟩, ⟨j'⟩, t'⟩ := e'
  obtain rfl : i = i' := stateName_injective hsource
  obtain rfl : j = j' := stateName_injective htarget
  exact congrArg _ ht

theorem arcCount_system : g.system.arcCount = g.edgeCount := by
  obtain ⟨-, -, -, harcs⟩ := system_spec_of_explore h
  have hnodup : (g.edges.toList.map g.arcOf).Nodup :=
    (nodup_edges h).map_on fun e he e' he' =>
      arcOf_injOn_edges h hlabels (Array.mem_toList_iff.1 he) (Array.mem_toList_iff.1 he')
  unfold TransitionSystem.arcCount edgeCount
  rw [harcs, eraseDups_of_nodup hnodup, List.length_map, Array.length_toList]

theorem isDeterministic_system : g.system.isDeterministic = true := by
  obtain ⟨hwell, -, -, -⟩ := system_spec_of_explore h
  refine hwell.isDeterministic_iff.2 fun v l w w' ha ha' => ?_
  obtain ⟨⟨i⟩, j, t, he, hv, rfl, hl⟩ := (hasArc_system_iff h).1 ha
  obtain ⟨⟨i'⟩, j', t', he', hv', rfl, hl'⟩ := (hasArc_system_iff h).1 ha'
  obtain rfl : i = i' := stateName_injective (hv.trans hv'.symm)
  have ht : t = t' := transition_eq_of_label_eq h hlabels he he' (hl.trans hl'.symm)
  rw [show j = j' from target_eq h he he' rfl ht]

end Explored

/-- The system of a graph loses and invents nothing. It has the states of the nodes in their order, each
with the marking of its node, and the first of them is the initial one; its arcs are the triples of the
edges, each where it occurs first, since nothing but a triple that is there is refused. So a walk goes
with every firing sequence; and if the labels of the net are different, each edge has its own arc and the
system is deterministic. -/
theorem system_faithful (h : buildWithin rounds config net = .ok g) :
    g.system.states = g.nodes.entries.map (fun e => stateOf e.1 e.2) ∧
    g.system.stateIds = (List.range g.nodeCount).map stateName ∧
    (∀ i n, g.nodes.get? i = some n → g.system.marking? (stateName i.index) = some n.marking) ∧
    (∀ s ∈ g.system.states, g.system.isInitial s = true ↔ s.id = stateName 0) ∧
    g.system.initialState?.map Node.id = some (stateName 0) ∧
    (∀ e ∈ g.edges, ∃ transition, net.transitionAt? e.transition = some transition ∧
      g.arcOf e =
        .between (stateName e.source.index) (stateName e.target.index) transition.label) ∧
    FirstOccurrences (g.edges.toList.map g.arcOf) g.system.arcs ∧
    (∀ es e rest err, g.edges.toList = es ++ e :: rest →
      ((g.systemAfter es).addArc (g.arcOf e) = .error err ↔
        g.arcOf e ∈ es.map g.arcOf ∧ .duplicateEdge (g.arcOf e).key = err)) ∧
    (∀ ts m, net.Reaches ts m → ∃ steps v, g.system.Walk (stateName 0) steps v ∧
      steps.map (fun s => some s.2) = ts.map fun t => (net.transitionAt? t).map Transition.label) ∧
    ((net.transitions.map Transition.label).Nodup →
      g.system.arcCount = g.edgeCount ∧ g.system.isDeterministic = true) := by
  have hexplore : exploreWithin .word rounds config net = .ok g := h
  obtain ⟨hwell, hstates, hinitial, harcs⟩ := system_spec_of_explore hexplore
  refine ⟨hstates, stateIds_system hexplore, fun i n hn => ?_, fun s _ => ?_, ?_, fun e he => ?_, ?_,
    fun es e rest err hedges => addArc_systemAfter_eq_error_iff hexplore hedges,
    fun ts m hts => ?_, fun hlabels =>
      ⟨arcCount_system hexplore hlabels, isDeterministic_system hexplore hlabels⟩⟩
  · exact (marking?_system_eq_some_iff hexplore).2 ⟨i, n, hn, rfl, rfl⟩
  · unfold TransitionSystem.isInitial
    rw [hinitial, decide_eq_true_iff, Option.some.injEq]
    exact eq_comm
  · obtain ⟨s, hs, hid⟩ := hwell.exists_initialState? hinitial
    rw [hs, Option.map_some, hid]
  · obtain ⟨transition, htransition, hlabel⟩ := exists_label_of_mem_edges hexplore he
    exact ⟨transition, htransition, congrArg (Arc.between _ _) hlabel⟩
  · rw [harcs]
    exact firstOccurrences_eraseDups _
  · obtain ⟨steps, i, n, hwalk, -, -, hlabels⟩ := exists_walk_of_reaches hexplore hts
    exact ⟨steps, _, hwalk, hlabels⟩

/-- The pump, whose graph has `ω`: its two labels are different, so its three edges are three arcs. -/
theorem system_faithful_pumpNet : ∃ net g, pumpNet = .ok net ∧ buildWithin 4 default net = .ok g ∧
    g.hasOmega = true ∧ g.system.stateIds = ["s0", "s1", "s2"] ∧
    (∃ steps v, g.system.Walk (stateName 0) steps v ∧
      steps.map (fun s => some s.2) = [some "start", some "fill", some "fill"]) ∧
    g.edgeCount = 3 ∧ g.system.arcCount = 3 ∧ g.system.isDeterministic = true := by
  have hpump : ∃ net g, pumpNet = .ok net ∧ buildWithin 4 default net = .ok g ∧
      g.hasOmega = true ∧ g.nodeCount = 3 ∧ g.edgeCount = 3 ∧
      net.transitions.map Transition.label = ["start", "fill"] ∧
      net.Reaches [⟨0⟩, ⟨1⟩, ⟨1⟩] (.ofCounts [0, 1, 4]) ∧
      [⟨0⟩, ⟨1⟩, ⟨1⟩].map (fun t => (net.transitionAt? t).map Transition.label) =
        [some "start", some "fill", some "fill"] :=
    ⟨_, _, rfl, rfl, rfl, rfl, rfl, rfl, rfl, rfl⟩
  obtain ⟨net, g, hnet, hg, homega, hnodes, hedges, hlabels, hts, hword⟩ := hpump
  obtain ⟨-, hids, -, -, -, -, -, -, hwalks, hdistinct⟩ := system_faithful hg
  obtain ⟨harcs, hdeterministic⟩ := hdistinct (by rw [hlabels]; decide)
  obtain ⟨steps, v, hwalk, hsteps⟩ := hwalks _ _ hts
  exact ⟨net, g, hnet, hg, homega, by rw [hids, hnodes]; rfl, ⟨steps, v, hwalk, hsteps.trans hword⟩,
    hedges, harcs.trans hedges, hdeterministic⟩

end CoverabilityGraph

end PetriNets
