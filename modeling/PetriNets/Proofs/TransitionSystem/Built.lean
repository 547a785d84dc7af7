import PetriNets.Document.System
import PetriNets.Proofs.Graph.BreadthFirst
import PetriNets.Proofs.Graph.WellFormed
import PetriNets.Proofs.Text.Digits

/-!
# Transition systems that have been built

`Built` systems are those that come about by adding and taking out states and arcs, by the setters and
by copying. Their graphs are well-formed, their arcs have labels, and their initial state is one of
their states (`Built.wellFormed`). So what leaves and what enters a state can be read off the list of
arcs, and traversals find what can be reached along arcs (`mem_reachableStates_iff`).
-/

namespace PetriNets

theorem stateName_injective : Function.Injective stateName := fun _ _ h =>
  Text.toString_injective ((String.append_right_inj "s").1 h)

namespace TransitionSystem

/-- A system that has been put together by calls. -/
inductive Built : TransitionSystem → Prop where
  | empty (name : String) : Built (.empty name)
  | addState {ts ts' : TransitionSystem} {s : State} (earlier : Built ts)
      (call : ts.addState s = .ok ts') : Built ts'
  | createState {ts ts' : TransitionSystem} {id : Option String} {name : String} (earlier : Built ts)
      (call : ts.createState id = .ok (name, ts')) : Built ts'
  | addArc {ts ts' : TransitionSystem} {a : Arc} (earlier : Built ts) (labelled : a.key.label ≠ none)
      (call : ts.addArc a = .ok ts') : Built ts'
  | removeState {ts ts' : TransitionSystem} {id : String} {s : State} (earlier : Built ts)
      (call : ts.removeState id = .ok (s, ts')) : Built ts'
  | removeArc {ts ts' : TransitionSystem} {source target label : String} {a : Arc}
      (earlier : Built ts) (call : ts.removeArc source target label = .ok (a, ts')) : Built ts'
  | setInitialState {ts ts' : TransitionSystem} {id : String} (earlier : Built ts)
      (call : ts.setInitialState id = .ok ts') : Built ts'
  | rename {ts : TransitionSystem} (earlier : Built ts) (name : String) : Built (ts.rename name)
  | modifyExtensions {ts : TransitionSystem} (earlier : Built ts) (f : Extensions → Extensions) :
      Built (ts.modifyExtensions f)
  | modifyStateExtensions {ts ts' : TransitionSystem} {id : String} {f : Extensions → Extensions}
      (earlier : Built ts) (call : ts.modifyStateExtensions id f = .ok ts') : Built ts'
  | modifyArcExtensions {ts ts' : TransitionSystem} {source target label : String}
      {f : Extensions → Extensions} (earlier : Built ts)
      (call : ts.modifyArcExtensions source target label f = .ok ts') : Built ts'
  | copied {ts : TransitionSystem} (earlier : Built ts) : Built ts.copied

variable {ts ts' : TransitionSystem} {id v w l : String} {s : State} {a : Arc}

theorem built_of_toSystem {d : SystemDocument} (h : d.toSystem = .ok ts) : ts.Built := by
  unfold SystemDocument.toSystem at h
  simp only [bind_eq_ok_iff] at h
  obtain ⟨withStates, hstates, withArcs, harcs, hinitial⟩ := h
  have hs : withStates.Built := by
    refine foldlM_induction (fun _ => Built) ((Built.empty _).modifyExtensions _) ?_ hstates
    intro _ _ _ _ _ hts hcall
    exact hts.addState hcall
  have ha : withArcs.Built := by
    refine foldlM_induction (fun _ => Built) hs ?_ harcs
    intro _ _ _ _ _ hts hcall
    exact hts.addArc (Option.some_ne_none _) hcall
  split at hinitial
  · exact ha.setInitialState hinitial
  · exact Except.ok.inj hinitial ▸ ha

/-! ## What is true of them -/

/-- The graph is well-formed, arcs have labels, and the initial state is there. -/
structure WellFormed (ts : TransitionSystem) : Prop where
  graph : ts.graph.WellFormed
  labelled : ∀ k ∈ ts.graph.keys, k.label ≠ none
  initial_mem : ∀ v, ts.initial = some v → v ∈ ts.stateIds

theorem wellFormed_empty (name : String) : (empty name).WellFormed :=
  ⟨Graph.wellFormed_empty name, nofun, nofun⟩

namespace WellFormed

variable (h : ts.WellFormed)
include h

/-- What changes neither states nor the keys of arcs. -/
theorem of_eq (hgraph : ts'.graph.WellFormed) (hids : ts'.stateIds = ts.stateIds)
    (hkeys : ts'.graph.keys = ts.graph.keys) (hinitial : ts'.initial = ts.initial) :
    ts'.WellFormed :=
  ⟨hgraph, hkeys ▸ h.labelled, hinitial ▸ hids ▸ h.initial_mem⟩

theorem addState (hcall : ts.addState s = .ok ts') :
    ts'.WellFormed ∧ ts'.states = ts.states ++ [s] ∧ ts'.arcs = ts.arcs ∧
      ts'.initial = ts.initial := by
  obtain ⟨g, hg, hts⟩ := bind_eq_ok_iff.1 hcall
  obtain rfl := Except.ok.inj hts
  have hwell := h.graph.insertNode hg
  obtain ⟨-, rfl⟩ := Graph.insertNode_eq_ok_iff.1 hg
  have hstates : Graph.nodes { ts.graph with slots := ts.graph.slots ++ [⟨s, [], []⟩] } =
      ts.states ++ [s] := by simp [Graph.nodes, states]
  refine ⟨⟨hwell, h.labelled, fun v hv => ?_⟩, hstates, rfl, rfl⟩
  show v ∈ (Graph.nodes _).map Node.id
  rw [hstates, List.map_append]
  exact List.mem_append_left _ (h.initial_mem v hv)

theorem createState {id : Option String} {name : String}
    (hcall : ts.createState id = .ok (name, ts')) :
    ts'.WellFormed ∧ ts'.states = ts.states ++ [⟨name, (), ∅⟩] ∧ ts'.arcs = ts.arcs ∧
      ts'.initial = ts.initial ∧ ∀ v, id = some v → name = v := by
  unfold TransitionSystem.createState at hcall
  cases id with
  | some id =>
    obtain ⟨ts₁, hadd, hts⟩ := bind_eq_ok_iff.1 hcall
    cases hts
    obtain ⟨hwell, hstates, harcs, hinitial⟩ := h.addState hadd
    exact ⟨hwell, hstates, harcs, hinitial, fun v hv => Option.some.inj hv⟩
  | none =>
    obtain ⟨ts₁, hadd, hts⟩ := bind_eq_ok_iff.1 hcall
    cases hts
    have hfresh : WellFormed { ts with fresh := ts.nextFresh + 1 } :=
      ⟨h.graph, h.labelled, h.initial_mem⟩
    obtain ⟨hwell, hstates, harcs, hinitial⟩ := hfresh.addState hadd
    exact ⟨hwell, hstates, harcs, hinitial, nofun⟩

theorem addArc (hlabel : a.key.label ≠ none) (hcall : ts.addArc a = .ok ts') :
    ts'.WellFormed ∧ ts'.states = ts.states ∧ ts'.arcs = ts.arcs ++ [a] ∧
      ts'.initial = ts.initial := by
  obtain ⟨g, hg, hts⟩ := bind_eq_ok_iff.1 hcall
  obtain rfl := Except.ok.inj hts
  have hwell := h.graph.insertEdge hg
  obtain ⟨-, -, -, rfl⟩ := (Graph.insertEdge_eq_ok_iff h.graph).1 hg
  have hstates := Slot.map_node_ofKeys (ts.graph.keys ++ [a.key]) ts.graph.nodes
  refine ⟨⟨hwell, fun k hk => ?_, fun v hv => ?_⟩, hstates, rfl, rfl⟩
  · obtain ⟨e, he, rfl⟩ := List.mem_map.1 hk
    rcases List.mem_append.1 he with he | he
    · exact h.labelled e.key (List.mem_map_of_mem he)
    · rw [List.mem_singleton.1 he]
      exact hlabel
  · show v ∈ (List.map Slot.node _).map Node.id
    rw [hstates]
    exact h.initial_mem v hv

theorem removeState (hcall : ts.removeState id = .ok (s, ts')) : ts'.WellFormed := by
  obtain ⟨⟨s, g⟩, hg, hts⟩ := bind_eq_ok_iff.1 hcall
  cases hts
  have hwell := h.graph.removeNode hg
  obtain ⟨-, -, rfl⟩ := (Graph.removeNode_eq_ok_iff h.graph).1 hg
  refine ⟨hwell, fun k hk => ?_, fun v hv => ?_⟩
  · obtain ⟨e, he, rfl⟩ := List.mem_map.1 hk
    exact h.labelled e.key (List.mem_map_of_mem (List.mem_of_mem_filter he))
  · dsimp only at hv
    split at hv
    · cases hv
    · next hid =>
      show v ∈ (List.map Slot.node _).map Node.id
      rw [Slot.map_node_ofKeys]
      obtain ⟨n, hn, rfl⟩ := Graph.mem_nodeIds.1 (h.initial_mem v hv)
      refine List.mem_map_of_mem (List.mem_filter.2 ⟨hn, ?_⟩)
      rw [hv, Option.some.injEq] at hid
      exact decide_eq_true hid

theorem removeArc {source target label : String}
    (hcall : ts.removeArc source target label = .ok (a, ts')) : ts'.WellFormed := by
  obtain ⟨⟨a, g⟩, hg, hts⟩ := bind_eq_ok_iff.1 hcall
  cases hts
  have hwell := h.graph.removeEdge hg
  obtain ⟨-, -, rfl⟩ := (Graph.removeEdge_eq_ok_iff h.graph).1 hg
  refine ⟨hwell, fun k hk => ?_, fun v hv => ?_⟩
  · obtain ⟨e, he, rfl⟩ := List.mem_map.1 hk
    exact h.labelled e.key (List.mem_map_of_mem (List.mem_of_mem_filter he))
  · show v ∈ (List.map Slot.node _).map Node.id
    rw [Slot.map_node_ofKeys]
    exact h.initial_mem v hv

theorem setInitialState (hcall : ts.setInitialState id = .ok ts') :
    ts'.WellFormed ∧ id ∈ ts.stateIds ∧ { ts with initial := some id } = ts' := by
  obtain ⟨n, hn, hts⟩ := bind_eq_ok_iff.1 hcall
  obtain rfl := Except.ok.inj hts
  obtain ⟨s, hs, -⟩ := map_eq_ok_iff.1 hn
  have hid : id ∈ ts.stateIds := Graph.exists_slot_iff.1 ⟨s, hs⟩
  exact ⟨⟨h.graph, h.labelled, fun v hv => Option.some.inj hv ▸ hid⟩, hid, rfl⟩

theorem setInitialState_of_mem (hid : id ∈ ts.stateIds) :
    ts.setInitialState id = .ok { ts with initial := some id } := by
  obtain ⟨n, hn, hname⟩ := Graph.mem_nodeIds.1 hid
  unfold TransitionSystem.setInitialState
  rw [h.graph.node_eq_ok_iff.2 ⟨hn, hname⟩]
  rfl

theorem modifyStateExtensions {f : Extensions → Extensions}
    (hcall : ts.modifyStateExtensions id f = .ok ts') : ts'.WellFormed := by
  obtain ⟨_, -, hts⟩ := bind_eq_ok_iff.1 hcall
  obtain rfl := Except.ok.inj hts
  refine h.of_eq (h.graph.modifyNodeExtensions id f) ?_ rfl rfl
  exact Graph.nodeIds_modifyNodeExtensions id f

theorem modifyArcExtensions {source target label : String} {f : Extensions → Extensions}
    (hcall : ts.modifyArcExtensions source target label f = .ok ts') : ts'.WellFormed := by
  obtain ⟨_, -, hts⟩ := bind_eq_ok_iff.1 hcall
  obtain rfl := Except.ok.inj hts
  exact h.of_eq (h.graph.modifyEdgeExtensions _ f) rfl (Graph.keys_modifyEdgeExtensions _ f) rfl

end WellFormed

theorem Built.wellFormed (h : ts.Built) : ts.WellFormed := by
  induction h with
  | empty name => exact wellFormed_empty name
  | addState _ call ih => exact (ih.addState call).1
  | createState _ call ih => exact (ih.createState call).1
  | addArc _ labelled call ih => exact (ih.addArc labelled call).1
  | removeState _ call ih => exact ih.removeState call
  | removeArc _ call ih => exact ih.removeArc call
  | setInitialState _ call ih => exact (ih.setInitialState call).1
  | rename _ name ih => exact ih.of_eq (ih.graph.rename name) rfl rfl rfl
  | modifyExtensions _ f ih =>
    exact ih.of_eq ⟨ih.graph.nodup_nodeIds, ih.graph.nodup_keys, ih.graph.ends_mem,
      ih.graph.slots_eq⟩ rfl rfl rfl
  | modifyStateExtensions _ call ih => exact ih.modifyStateExtensions call
  | modifyArcExtensions _ call ih => exact ih.modifyArcExtensions call
  | @copied ts _ ih =>
    exact ih.of_eq ih.graph.copied (Graph.nodeIds_copied ts.graph) (Graph.keys_copied ts.graph) rfl

/-! ## Arcs -/

/-- An arc with the label `l` leads from `v` to `w`. -/
def HasArc (ts : TransitionSystem) (v l w : String) : Prop := ⟨v, w, some l⟩ ∈ ts.graph.keys

theorem length_stateIds : ts.stateIds.length = ts.stateCount := by
  unfold stateIds Graph.nodeIds stateCount states
  exact List.length_map _

namespace WellFormed

variable (h : ts.WellFormed)
include h

theorem key_eq (ha : a ∈ ts.arcs) : a.key = ⟨a.key.source, a.key.target, some a.label⟩ := by
  obtain ⟨⟨source, target, label⟩, data, extensions⟩ := a
  have hlabel : label ≠ none := h.labelled _ (List.mem_map_of_mem ha)
  obtain ⟨l, rfl⟩ := Option.ne_none_iff_exists'.1 hlabel
  rfl

theorem hasArc_iff : ts.HasArc v l w ↔
    ∃ a ∈ ts.arcs, a.key.source = v ∧ a.label = l ∧ a.key.target = w := by
  unfold HasArc Graph.keys
  rw [List.mem_map]
  constructor
  · rintro ⟨a, ha, hkey⟩
    refine ⟨a, ha, ?_⟩
    rw [Arc.label, hkey]
    exact ⟨rfl, rfl, rfl⟩
  · rintro ⟨a, ha, rfl, rfl, rfl⟩
    exact ⟨a, ha, h.key_eq ha⟩

theorem mem_of_hasArc (ha : ts.HasArc v l w) : v ∈ ts.stateIds ∧ w ∈ ts.stateIds :=
  h.graph.ends_mem _ ha

theorem outgoing_eq (id : String) : ts.outgoing id = ts.arcs.filter fun a => a.key.source = id :=
  h.graph.postsetEdges_getD id

theorem mem_successors_iff : w ∈ ts.successors v ↔ ∃ l, ts.HasArc v l w := by
  unfold successors
  rw [h.outgoing_eq]
  simp only [h.hasArc_iff, List.mem_map, List.mem_filter, decide_eq_true_eq]
  constructor
  · rintro ⟨a, ⟨ha, hsource⟩, htarget⟩
    exact ⟨_, a, ha, hsource, rfl, htarget⟩
  · rintro ⟨-, a, ha, hsource, -, htarget⟩
    exact ⟨a, ⟨ha, hsource⟩, htarget⟩

theorem mem_predecessors_iff : w ∈ ts.predecessors v ↔ ∃ l, ts.HasArc w l v := by
  unfold predecessors
  rw [h.graph.presetEdges_getD]
  show w ∈ (ts.arcs.filter _).map _ ↔ _
  simp only [h.hasArc_iff, List.mem_map, List.mem_filter, decide_eq_true_eq]
  constructor
  · rintro ⟨a, ⟨ha, htarget⟩, hsource⟩
    exact ⟨_, a, ha, hsource, rfl, htarget⟩
  · rintro ⟨-, a, ha, hsource, -, htarget⟩
    exact ⟨a, ⟨ha, htarget⟩, hsource⟩

theorem exists_initialState? (hinitial : ts.initial = some v) :
    ∃ n, ts.initialState? = some n ∧ n.id = v := by
  obtain ⟨n, hn, rfl⟩ := Graph.mem_nodeIds.1 (h.initial_mem v hinitial)
  refine ⟨n, ?_, rfl⟩
  unfold initialState?
  rw [hinitial, Option.bind_some, h.graph.slot?_eq hn]
  rfl

theorem map_id_initialState? : ts.initialState?.map Node.id = ts.initial := by
  cases hinitial : ts.initial with
  | none =>
    unfold initialState?
    rw [hinitial]
    rfl
  | some v =>
    obtain ⟨n, hn, rfl⟩ := h.exists_initialState? hinitial
    rw [hn]
    rfl

theorem successors_mem : ∀ v ∈ ts.stateIds, ∀ w ∈ ts.successors v, w ∈ ts.stateIds := by
  intro v _ w hw
  obtain ⟨l, ha⟩ := h.mem_successors_iff.1 hw
  exact (h.mem_of_hasArc ha).2

/-- Forwards, a traversal finds what walks lead to. -/
theorem mem_breadthFirst_successors_iff (hv : v ∈ ts.stateIds) :
    w ∈ breadthFirst ts.successors ts.stateCount v ↔
      Relation.ReflTransGen (fun v w => ∃ l, ts.HasArc v l w) v w := by
  rw [mem_breadthFirst_iff h.successors_mem (Nat.le_of_eq length_stateIds) hv]
  simp only [h.mem_successors_iff]

/-- Backwards, it finds what walks come from. -/
theorem mem_breadthFirst_predecessors_iff (hv : v ∈ ts.stateIds) :
    w ∈ breadthFirst ts.predecessors ts.stateCount v ↔
      Relation.ReflTransGen (fun v w => ∃ l, ts.HasArc v l w) w v := by
  have hnext : ∀ v ∈ ts.stateIds, ∀ w ∈ ts.predecessors v, w ∈ ts.stateIds := by
    intro v _ w hw
    obtain ⟨l, ha⟩ := h.mem_predecessors_iff.1 hw
    exact (h.mem_of_hasArc ha).1
  rw [mem_breadthFirst_iff hnext (Nat.le_of_eq length_stateIds) hv, ← Relation.reflTransGen_swap]
  simp only [h.mem_predecessors_iff]

theorem reachableStates_eq (hinitial : ts.initial = some v) :
    ts.reachableStates = breadthFirst ts.successors ts.stateCount v := by
  obtain ⟨n, hstate, rfl⟩ := h.exists_initialState? hinitial
  unfold reachableStates
  rw [hstate]

/-- What can be reached from the initial state, along any arcs, is what the traversal lists. -/
theorem mem_reachableStates_iff (hinitial : ts.initial = some v) : w ∈ ts.reachableStates ↔
    Relation.ReflTransGen (fun v w => ∃ l, ts.HasArc v l w) v w := by
  rw [h.reachableStates_eq hinitial]
  exact h.mem_breadthFirst_successors_iff (h.initial_mem v hinitial)

end WellFormed

end TransitionSystem

end PetriNets
