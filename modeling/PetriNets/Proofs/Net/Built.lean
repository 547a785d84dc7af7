import PetriNets.Document.Net
import PetriNets.Net.Firing
import PetriNets.Net.Reversal
import PetriNets.Proofs.FiringSequence
import PetriNets.Proofs.Graph.WellFormed

/-!
# Nets that have been built

`Built` nets are those that come about by adding and taking out, by the setters, by copying and by
reversing. Their graphs are well-formed and their flows have no label (`Built.wellFormed`), so there is
at most one flow from a place to a transition. Hence a transition takes from a place by one arc at most,
and what is enabled can fire (`Built.exists_fire`).
-/

namespace PetriNets

namespace Net

/-- A net that has been put together by calls. -/
inductive Built : Net → Prop where
  | empty (name : String) : Built (.empty name)
  | addPlace {net net' : Net} {p : Place} {id : PlaceId} (earlier : Built net)
      (call : net.addPlace p = .ok (id, net')) : Built net'
  | addTransition {net net' : Net} {t : Transition} {id : TransitionId} (earlier : Built net)
      (call : net.addTransition t = .ok (id, net')) : Built net'
  | addFlow {net net' : Net} {f : Flow} (earlier : Built net) (unlabelled : f.key.label = none)
      (call : net.addFlow f = .ok net') : Built net'
  | removeFlow {net net' : Net} {source target : String} {f : Flow} (earlier : Built net)
      (call : net.removeFlow source target = .ok (f, net')) : Built net'
  | removeNode {net net' : Net} {id : String} {n : Node Element} (earlier : Built net)
      (call : net.removeNode id = .ok (n, net')) : Built net'
  | rename {net : Net} (earlier : Built net) (name : String) : Built (net.rename name)
  | setTokens {net net' : Net} {id : String} {tokens : Nat} (earlier : Built net)
      (call : net.setTokens id tokens = .ok net') : Built net'
  | setLabel {net net' : Net} {id label : String} (earlier : Built net)
      (call : net.setLabel id label = .ok net') : Built net'
  | setInitialMarking {net net' : Net} {m : Marking} (earlier : Built net)
      (call : net.setInitialMarking m = .ok net') : Built net'
  | modifyExtensions {net : Net} (earlier : Built net) (f : Extensions → Extensions) :
      Built (net.modifyExtensions f)
  | modifyPlaceExtensions {net net' : Net} {id : String} {f : Extensions → Extensions}
      (earlier : Built net) (call : net.modifyPlaceExtensions id f = .ok net') : Built net'
  | modifyTransitionExtensions {net net' : Net} {id : String} {f : Extensions → Extensions}
      (earlier : Built net) (call : net.modifyTransitionExtensions id f = .ok net') : Built net'
  | modifyFlowExtensions {net net' : Net} {source target : String} {f : Extensions → Extensions}
      (earlier : Built net) (call : net.modifyFlowExtensions source target f = .ok net') : Built net'
  | copied {net : Net} (earlier : Built net) : Built net.copied
  | reversed {net net' : Net} (earlier : Built net) (call : net.reversed = .ok net') : Built net'

variable {net net' : Net} {id : String} {m : Marking}

theorem built_of_toNet {d : NetDocument} (h : d.toNet = .ok net) : net.Built := by
  unfold NetDocument.toNet at h
  simp only [bind_eq_ok_iff] at h
  obtain ⟨withPlaces, hplaces, withTransitions, htransitions, hflows⟩ := h
  have hp : withPlaces.Built := by
    refine foldlM_induction (fun _ => Built) ((Built.empty _).modifyExtensions _) ?_ hplaces
    intro _ _ _ _ _ hnet hcall
    obtain ⟨r, hr, hnext⟩ := bind_eq_ok_iff.1 hcall
    exact Except.ok.inj hnext ▸ hnet.addPlace hr
  have ht : withTransitions.Built := by
    refine foldlM_induction (fun _ => Built) hp ?_ htransitions
    intro _ _ _ _ _ hnet hcall
    obtain ⟨r, hr, hnext⟩ := bind_eq_ok_iff.1 hcall
    exact Except.ok.inj hnext ▸ hnet.addTransition hr
  refine foldlM_induction (fun _ => Built) ht ?_ hflows
  intro _ _ _ _ _ hnet hcall
  exact hnet.addFlow rfl hcall

/-! ## What is true of them -/

/-- The graph is well-formed, and no flow has a label. -/
structure WellFormed (net : Net) : Prop where
  graph : net.graph.WellFormed
  unlabelled : ∀ k ∈ net.graph.keys, k.label = none

/-- What keeps the graph well-formed and adds no key keeps the net so. -/
theorem WellFormed.of_subset (h : net.WellFormed) (hgraph : net'.graph.WellFormed)
    (hkeys : net'.graph.keys ⊆ net.graph.keys) : net'.WellFormed :=
  ⟨hgraph, fun k hk => h.unlabelled k (hkeys hk)⟩

theorem WellFormed.insertNode (h : net.WellFormed) {n : Node Element} {g : Graph Element Nat}
    (hg : net.graph.insertNode n = .ok g) : WellFormed ⟨g⟩ := by
  refine h.of_subset (h.graph.insertNode hg) ?_
  obtain ⟨-, rfl⟩ := Graph.insertNode_eq_ok_iff.1 hg
  exact List.Subset.refl _

theorem WellFormed.insertEdge (h : net.WellFormed) {f : Flow} {g : Graph Element Nat}
    (hlabel : f.key.label = none) (hg : net.graph.insertEdge f = .ok g) : WellFormed ⟨g⟩ := by
  refine ⟨h.graph.insertEdge hg, fun k hk => ?_⟩
  obtain ⟨-, -, -, rfl⟩ := (Graph.insertEdge_eq_ok_iff h.graph).1 hg
  obtain ⟨e, he, rfl⟩ := List.mem_map.1 hk
  rcases List.mem_append.1 he with he | he
  · exact h.unlabelled e.key (List.mem_map_of_mem he)
  · rw [List.mem_singleton.1 he]
    exact hlabel

theorem WellFormed.modifyData (h : net.WellFormed) (id : String) (f : Element → Element) :
    WellFormed ⟨net.graph.modifyData id f⟩ :=
  h.of_subset (h.graph.modifyData id f) (List.Subset.refl _)

/-- A flow that is not refused is added as an edge. -/
theorem insertEdge_of_addFlow {f : Flow} (h : net.addFlow f = .ok net') :
    ∃ g, net.graph.insertEdge f = .ok g ∧ ⟨g⟩ = net' := by
  unfold addFlow at h
  dsimp only at h
  split at h
  · cases h
  · obtain ⟨s, -, h⟩ := bind_eq_ok_iff.1 h
    obtain ⟨t, -, h⟩ := bind_eq_ok_iff.1 h
    split at h
    · cases h
    · obtain ⟨g, hg, hnet⟩ := bind_eq_ok_iff.1 h
      exact ⟨g, hg, Except.ok.inj hnet⟩

theorem wellFormed_of_reversed (h : net.reversed = .ok net') : net'.WellFormed := by
  unfold reversed at h
  simp only [bind_eq_ok_iff] at h
  obtain ⟨withPlaces, hplaces, withTransitions, htransitions, graph, hflows, hnet⟩ := h
  have hempty : ((Net.empty net.name).modifyExtensions fun _ => net.extensions.copied).WellFormed :=
    ⟨⟨.nil, .nil, nofun, rfl⟩, nofun⟩
  have hp : withPlaces.WellFormed := by
    refine foldlM_induction (fun _ => WellFormed) hempty ?_ hplaces
    intro _ _ _ _ _ hnet hcall
    obtain ⟨r, hr, hnext⟩ := bind_eq_ok_iff.1 hcall
    obtain ⟨g, hg, hr⟩ := bind_eq_ok_iff.1 hr
    exact Except.ok.inj hnext ▸ Except.ok.inj hr ▸ hnet.insertNode hg
  have ht : withTransitions.WellFormed := by
    refine foldlM_induction (fun _ => WellFormed) hp ?_ htransitions
    intro _ _ _ _ _ hnet hcall
    obtain ⟨r, hr, hnext⟩ := bind_eq_ok_iff.1 hcall
    obtain ⟨g, hg, hr⟩ := bind_eq_ok_iff.1 hr
    exact Except.ok.inj hnext ▸ Except.ok.inj hr ▸ hnet.insertNode hg
  have hf : WellFormed ⟨graph⟩ := by
    refine foldlM_induction (fun _ (g : Graph Element Nat) => WellFormed ⟨g⟩) ht ?_ hflows
    intro _ _ _ _ _ hg hcall
    exact hg.insertEdge rfl hcall
  exact Except.ok.inj hnet ▸ hf

theorem Built.wellFormed (h : net.Built) : net.WellFormed := by
  induction h with
  | empty name => exact ⟨Graph.wellFormed_empty name, nofun⟩
  | addPlace _ call ih =>
    obtain ⟨g, hg, hnet⟩ := bind_eq_ok_iff.1 call
    obtain ⟨-, rfl⟩ := Prod.mk.inj (Except.ok.inj hnet)
    exact ih.insertNode hg
  | addTransition _ call ih =>
    obtain ⟨g, hg, hnet⟩ := bind_eq_ok_iff.1 call
    obtain ⟨-, rfl⟩ := Prod.mk.inj (Except.ok.inj hnet)
    exact ih.insertNode hg
  | addFlow _ unlabelled call ih =>
    obtain ⟨g, hg, rfl⟩ := insertEdge_of_addFlow call
    exact ih.insertEdge unlabelled hg
  | removeFlow _ call ih =>
    obtain ⟨⟨f, g⟩, hg, hnet⟩ := bind_eq_ok_iff.1 call
    obtain ⟨-, rfl⟩ := Prod.mk.inj (Except.ok.inj hnet)
    refine ih.of_subset (ih.graph.removeEdge hg) ?_
    obtain ⟨-, -, rfl⟩ := (Graph.removeEdge_eq_ok_iff ih.graph).1 hg
    exact List.map_subset _ (List.filter_subset_self _)
  | removeNode _ call ih =>
    obtain ⟨⟨n, g⟩, hg, hnet⟩ := bind_eq_ok_iff.1 call
    obtain ⟨-, rfl⟩ := Prod.mk.inj (Except.ok.inj hnet)
    refine ih.of_subset (ih.graph.removeNode hg) ?_
    obtain ⟨-, -, rfl⟩ := (Graph.removeNode_eq_ok_iff ih.graph).1 hg
    exact List.map_subset _ (List.filter_subset_self _)
  | rename _ name ih => exact ih.of_subset (ih.graph.rename name) (List.Subset.refl _)
  | setTokens _ call ih =>
    obtain ⟨_, -, hnet⟩ := bind_eq_ok_iff.1 call
    exact Except.ok.inj hnet ▸ ih.modifyData _ _
  | setLabel _ call ih =>
    obtain ⟨_, -, hnet⟩ := bind_eq_ok_iff.1 call
    exact Except.ok.inj hnet ▸ ih.modifyData _ _
  | setInitialMarking _ call ih =>
    unfold Net.setInitialMarking at call
    simp only [bind_eq_ok_iff] at call
    obtain ⟨_, -, counts, -, hnet⟩ := call
    obtain rfl := Except.ok.inj hnet
    exact List.foldlRecOn counts _ ih fun net hnet e _ => hnet.modifyData _ _
  | modifyExtensions _ f ih =>
    exact ih.of_subset ⟨ih.graph.nodup_nodeIds, ih.graph.nodup_keys, ih.graph.ends_mem,
      ih.graph.slots_eq⟩ (List.Subset.refl _)
  | modifyPlaceExtensions _ call ih =>
    obtain ⟨_, -, hnet⟩ := bind_eq_ok_iff.1 call
    exact Except.ok.inj hnet ▸ ih.of_subset (ih.graph.modifyNodeExtensions _ _) (List.Subset.refl _)
  | modifyTransitionExtensions _ call ih =>
    obtain ⟨_, -, hnet⟩ := bind_eq_ok_iff.1 call
    exact Except.ok.inj hnet ▸ ih.of_subset (ih.graph.modifyNodeExtensions _ _) (List.Subset.refl _)
  | modifyFlowExtensions _ call ih =>
    obtain ⟨_, -, hnet⟩ := bind_eq_ok_iff.1 call
    refine Except.ok.inj hnet ▸ ih.of_subset (ih.graph.modifyEdgeExtensions _ _) ?_
    rw [Graph.keys_modifyEdgeExtensions]
    exact List.Subset.refl _
  | copied _ ih =>
    refine ih.of_subset ih.graph.copied ?_
    rw [Net.copied, Graph.keys_copied]
    exact List.Subset.refl _
  | reversed _ call => exact wellFormed_of_reversed call

/-! ## Arcs -/

theorem placeIds_getElem?_of_placeIndex? {v : String} {p : PlaceId}
    (h : net.placeIndex? v = some p) : net.placeIds[p.index]? = some v := by
  unfold placeIndex? List.idxOf? at h
  obtain ⟨i, hi, rfl⟩ := Option.map_eq_some_iff.1 h
  obtain ⟨hlt, hv, -⟩ := List.findIdx?_eq_some_iff_getElem.1 hi
  rw [List.getElem?_eq_getElem hlt, beq_iff_eq.1 hv]

/-- The arcs that flows come to, each with the place that is at this end of it. -/
def row (net : Net) (place : Flow → String) (fs : List Flow) : Row :=
  fs.filterMap fun f => (net.placeIndex? (place f)).map (·, f.data)

theorem nodup_row {place : Flow → String} {fs : List Flow} (h : (fs.map place).Nodup) :
    ((net.row place fs).map Prod.fst).Nodup := by
  have hplaces : (net.row place fs).map Prod.fst = (fs.map place).filterMap net.placeIndex? := by
    unfold row
    rw [List.map_filterMap, List.filterMap_map]
    refine List.filterMap_congr fun e _ => ?_
    rw [Option.map_map]
    exact Option.map_id'
  rw [hplaces]
  refine h.filterMap fun v w p hv hw => ?_
  have hv' := placeIds_getElem?_of_placeIndex? hv
  rw [placeIds_getElem?_of_placeIndex? hw] at hv'
  exact (Option.some.inj hv').symm

/-- Flows that agree at one end and have no label are told apart by the other end. -/
theorem WellFormed.nodup_ends (h : net.WellFormed) (test : EdgeKey → Bool) (far : EdgeKey → String)
    (hfar : ∀ k l, test k = true → test l = true → k.label = l.label → far k = far l → k = l) :
    ((net.flows.filter fun f => test f.key).map fun f => far f.key).Nodup := by
  have hkeys : ((net.flows.filter fun f => test f.key).map Edge.key).Nodup :=
    h.graph.nodup_keys.sublist (List.filter_sublist.map _)
  have hends : ∀ k ∈ (net.flows.filter fun f => test f.key).map Edge.key,
      test k = true ∧ k.label = none := by
    intro k hk
    obtain ⟨f, hf, rfl⟩ := List.mem_map.1 hk
    obtain ⟨hf, htest⟩ := List.mem_filter.1 hf
    exact ⟨htest, h.unlabelled f.key (List.mem_map_of_mem hf)⟩
  show ((net.flows.filter fun f => test f.key).map (far ∘ Edge.key)).Nodup
  rw [← List.map_map]
  refine hkeys.map_on fun k hk l hl heq => ?_
  obtain ⟨hk, hnone⟩ := hends k hk
  obtain ⟨hl, hnone'⟩ := hends l hl
  exact hfar k l hk hl (hnone.trans hnone'.symm) heq

theorem WellFormed.nodup_sources (h : net.WellFormed) (id : String) :
    ((net.flows.filter fun f => f.key.target = id).map fun f => f.key.source).Nodup := by
  refine h.nodup_ends (fun k => k.target = id) EdgeKey.source ?_
  intro k l hk hl hlabel hsource
  have htarget : k.target = l.target := (of_decide_eq_true hk).trans (of_decide_eq_true hl).symm
  cases k
  cases l
  simp_all

theorem WellFormed.nodup_targets (h : net.WellFormed) (id : String) :
    ((net.flows.filter fun f => f.key.source = id).map fun f => f.key.target).Nodup := by
  refine h.nodup_ends (fun k => k.source = id) EdgeKey.target ?_
  intro k l hk hl hlabel htarget
  have hsource : k.source = l.source := (of_decide_eq_true hk).trans (of_decide_eq_true hl).symm
  cases k
  cases l
  simp_all

theorem WellFormed.pre_arcsNamed (h : net.WellFormed) (id : String) : (net.arcsNamed id).pre =
    net.row (fun f => f.key.source) (net.flows.filter fun f => f.key.target = id) := by
  unfold arcsNamed
  rw [h.graph.presetEdges_getD]
  rfl

theorem WellFormed.post_arcsNamed (h : net.WellFormed) (id : String) : (net.arcsNamed id).post =
    net.row (fun f => f.key.target) (net.flows.filter fun f => f.key.source = id) := by
  unfold arcsNamed
  rw [h.graph.postsetEdges_getD]
  rfl

/-- A transition takes from a place by one arc at most. -/
theorem WellFormed.nodup_pre (h : net.WellFormed) (id : String) :
    ((net.arcsNamed id).pre.map Prod.fst).Nodup := by
  rw [h.pre_arcsNamed]
  exact nodup_row (h.nodup_sources id)

/-- A transition gives to a place by one arc at most. -/
theorem WellFormed.nodup_post (h : net.WellFormed) (id : String) :
    ((net.arcsNamed id).post.map Prod.fst).Nodup := by
  rw [h.post_arcsNamed]
  exact nodup_row (h.nodup_targets id)

/-- What is enabled can fire, unless a place overflows. -/
theorem Built.exists_fire (h : net.Built) {t : TransitionId} {a : Arcs}
    (ha : net.incidence.arcs.get? t = some a) (henabled : a.isEnabled m = true) :
    ∃ m', a.fire none m = .ok m' := by
  obtain ⟨-, rfl⟩ := arcs_get?_eq_some_iff.1 ha
  exact Arcs.exists_fire_of_isEnabled (h.wellFormed.nodup_pre _) henabled

end Net

end PetriNets
