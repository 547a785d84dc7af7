import PetriNets.Proofs.Extensions
import PetriNets.Proofs.Graph.Listed
import PetriNets.Proofs.Net.Alike
import PetriNets.Proofs.Net.Reversal

/-!
# Net documents and the nets they describe

The calls that build the net of a document are a fold over its nodes and a fold over its flows, and each
of them fails with the first item at fault (`toNet_eq`). So a document is accepted if it is `Valid`, and
otherwise the error is the one that it `Blames`. What is accepted is written back as it was read, and the
document of a net that has been built describes a net that is like it.
-/

namespace PetriNets

namespace NetDocument

variable {d : NetDocument} {e : GraphError} {net : Net} {earlier fs : List FlowRecord} {f : FlowRecord}

/-! ## Documents that describe a net -/

def placeIds (d : NetDocument) : List String := d.places.map PlaceRecord.id

def transitionIds (d : NetDocument) : List String := d.transitions.map TransitionRecord.id

/-- The names that the document declares, in the order in which they are added. -/
def nodeIds (d : NetDocument) : List String := d.placeIds ++ d.transitionIds

/-- The flow runs between a place and a transition of the document, in either direction. -/
def Joins (d : NetDocument) (f : FlowRecord) : Prop :=
  f.source ∈ d.placeIds ∧ f.target ∈ d.transitionIds ∨
    f.source ∈ d.transitionIds ∧ f.target ∈ d.placeIds

instance (d : NetDocument) (f : FlowRecord) : Decidable (d.Joins f) := by
  unfold Joins
  infer_instance

/-- Flows that move a token between a place and a transition, no two of them with the same ends in the
same order. -/
structure LegalFlows (d : NetDocument) (fs : List FlowRecord) : Prop where
  each : ∀ f ∈ fs, 1 ≤ f.weight ∧ d.Joins f
  nodup_ends : (fs.map fun f => (f.source, f.target)).Nodup

/-- The names are unique and the flows are legal. -/
structure Valid (d : NetDocument) : Prop where
  nodup_ids : d.nodeIds.Nodup
  flows : d.LegalFlows d.flows

/-- Why a flow cannot be added after others. -/
def flowFault? (d : NetDocument) (earlier : List FlowRecord) (f : FlowRecord) : Option GraphError :=
  if f.weight = 0 then some (.invalidWeight f.source f.target f.weight)
  else if f.source ∉ d.nodeIds then some (.nodeNotFound f.source)
  else if f.target ∉ d.nodeIds then some (.nodeNotFound f.target)
  else if ¬ d.Joins f then some (.illegalFlow f.source f.target)
  else if (f.source, f.target) ∈ earlier.map (fun f => (f.source, f.target)) then
    some (.duplicateEdge ⟨f.source, f.target, none⟩)
  else none

/-- What the first item at fault is refused with: places come first, then transitions, then flows. -/
inductive Blames (d : NetDocument) : GraphError → Prop where
  | node {before after : List String} {id : String} (split : d.nodeIds = before ++ id :: after)
      (nodup_before : before.Nodup) (taken : id ∈ before) : Blames d (.duplicateNode id)
  | flow {before after : List FlowRecord} {f : FlowRecord} {e : GraphError}
      (nodup_ids : d.nodeIds.Nodup) (split : d.flows = before ++ f :: after)
      (legal : d.LegalFlows before) (fault : d.flowFault? before f = some e) : Blames d e

/-- The document without the labels that only repeat the name of a transition. -/
def withoutOwnLabels (d : NetDocument) : NetDocument :=
  { d with transitions := d.transitions.map fun t => { t with label := t.label.filter (· ≠ t.id) } }

theorem joins_declared (h : d.Joins f) : f.source ∈ d.nodeIds ∧ f.target ∈ d.nodeIds := by
  rcases h with ⟨hs, ht⟩ | ⟨hs, ht⟩
  · exact ⟨List.mem_append_left _ hs, List.mem_append_right _ ht⟩
  · exact ⟨List.mem_append_right _ hs, List.mem_append_left _ ht⟩

theorem flowFault?_eq_none_iff : d.flowFault? earlier f = none ↔
    (1 ≤ f.weight ∧ d.Joins f) ∧ (f.source, f.target) ∉ earlier.map fun f => (f.source, f.target) := by
  unfold flowFault?
  by_cases hjoins : d.Joins f
  · obtain ⟨hs, ht⟩ := joins_declared hjoins
    rw [if_neg (not_not.2 hs), if_neg (not_not.2 ht), if_neg (not_not.2 hjoins)]
    by_cases hweight : f.weight = 0
    · simp [hweight]
    · simp [hweight, hjoins, Nat.one_le_iff_ne_zero]
  · constructor
    · intro h
      split_ifs at h
    · exact fun h => absurd h.1.2 hjoins

theorem firstFault_flowFault? : firstFault d.flowFault? [] fs = none ↔ d.LegalFlows fs :=
  (firstFault_eq_none_iff fun _ _ => flowFault?_eq_none_iff).trans
    ⟨fun h => ⟨h.1, h.2⟩, fun h => ⟨h.each, h.nodup_ends⟩⟩

/-! ## The net that is built -/

/-- The nodes that the places and the transitions become. -/
def nodes (d : NetDocument) : List (Node Element) :=
  d.places.map (fun p => p.toPlace.node) ++ d.transitions.map fun t => t.toTransition.node

/-- The net with the nodes of the document and some flows. -/
def netWith (d : NetDocument) (fs : List FlowRecord) : Net :=
  ⟨Listing.graph ⟨d.name, .imported d.extensions, d.nodes, fs.map FlowRecord.toFlow⟩⟩

theorem map_id_nodes (d : NetDocument) : d.nodes.map Node.id = d.nodeIds := by
  unfold nodes nodeIds placeIds transitionIds
  rw [List.map_append, List.map_map, List.map_map]
  rfl

theorem places_netWith (fs : List FlowRecord) :
    (d.netWith fs).places = d.places.map PlaceRecord.toPlace := by
  have hnone : d.transitions.filterMap (Node.asPlace? ∘ fun t => t.toTransition.node) = [] :=
    List.filterMap_eq_nil_iff.2 fun _ _ => rfl
  show (Listing.graph _).nodes.filterMap Node.asPlace? = _
  rw [Listing.nodes_graph, nodes, List.filterMap_append, List.filterMap_map, List.filterMap_map, hnone,
    List.append_nil, ← List.filterMap_eq_map]
  rfl

theorem transitions_netWith (fs : List FlowRecord) :
    (d.netWith fs).transitions = d.transitions.map TransitionRecord.toTransition := by
  have hnone : d.places.filterMap (Node.asTransition? ∘ fun p => p.toPlace.node) = [] :=
    List.filterMap_eq_nil_iff.2 fun _ _ => rfl
  show (Listing.graph _).nodes.filterMap Node.asTransition? = _
  rw [Listing.nodes_graph, nodes, List.filterMap_append, List.filterMap_map, List.filterMap_map, hnone,
    List.nil_append, ← List.filterMap_eq_map]
  rfl

theorem idsOf_nodes (d : NetDocument) :
    idsOf true d.nodes = d.placeIds ∧ idsOf false d.nodes = d.transitionIds := by
  have hnodes : (d.netWith []).graph.nodes = d.nodes := Listing.nodes_graph _
  rw [← hnodes, ← Net.placeIds_eq, ← Net.transitionIds_eq, Net.placeIds, Net.transitionIds,
    places_netWith, transitions_netWith, List.map_map, List.map_map]
  exact ⟨rfl, rfl⟩

theorem wellFormed_netWith (hids : d.nodeIds.Nodup) (h : d.LegalFlows fs) :
    (d.netWith fs).graph.WellFormed := by
  refine Listing.wellFormed_graph ?_ ?_ ?_
  · show (d.nodes.map Node.id).Nodup
    rwa [map_id_nodes]
  · have hkeys : (fs.map FlowRecord.toFlow).map Edge.key = (fs.map fun f => (f.source, f.target)).map
        fun ends => ⟨ends.1, ends.2, none⟩ := by
      rw [List.map_map, List.map_map]
      rfl
    show ((fs.map FlowRecord.toFlow).map Edge.key).Nodup
    rw [hkeys]
    refine h.nodup_ends.map fun a b hab => ?_
    injection hab with hsource htarget
    exact Prod.ext hsource htarget
  · intro k hk
    obtain ⟨e, he, rfl⟩ := List.mem_map.1 hk
    obtain ⟨f, hf, rfl⟩ := List.mem_map.1 he
    show f.source ∈ d.nodes.map Node.id ∧ f.target ∈ d.nodes.map Node.id
    rw [map_id_nodes]
    exact joins_declared (h.each f hf).2

/-- Two nodes are joined if they are of different kinds. -/
theorem joins_iff (hids : d.nodeIds.Nodup) {s t : Node Element} (hs : s ∈ d.nodes) (ht : t ∈ d.nodes)
    (hsource : s.id = f.source) (htarget : t.id = f.target) :
    d.Joins f ↔ s.data.isPlace ≠ t.data.isPlace := by
  have hkind : ∀ {n : Node Element}, n ∈ d.nodes →
      (n.id ∈ d.placeIds ↔ n.data.isPlace = true) ∧ (n.id ∈ d.transitionIds ↔ n.data.isPlace = false) := by
    intro n hn
    rw [← (idsOf_nodes d).1, ← (idsOf_nodes d).2]
    have hnodup : (d.nodes.map Node.id).Nodup := (map_id_nodes d).symm ▸ hids
    exact ⟨⟨fun h => isPlace_of_mem_idsOf hnodup h n hn rfl, fun h => mem_idsOf.2 ⟨n, hn, rfl, h⟩⟩,
      ⟨fun h => isPlace_of_mem_idsOf hnodup h n hn rfl, fun h => mem_idsOf.2 ⟨n, hn, rfl, h⟩⟩⟩
  unfold Joins
  rw [← hsource, ← htarget, (hkind hs).1, (hkind hs).2, (hkind ht).1, (hkind ht).2]
  cases s.data.isPlace <;> cases t.data.isPlace <;> simp

theorem node_netWith_of_mem (hids : d.nodeIds.Nodup) (h : d.LegalFlows fs) {v : String}
    (hv : v ∈ d.nodeIds) : ∃ n ∈ d.nodes, n.id = v ∧ (d.netWith fs).graph.node v = .ok n := by
  have hnodes : (d.netWith fs).graph.nodes = d.nodes := Listing.nodes_graph _
  rw [← map_id_nodes] at hv
  obtain ⟨n, hn, hid⟩ := List.mem_map.1 hv
  exact ⟨n, hn, hid, (wellFormed_netWith hids h).node_eq_ok_iff.2 ⟨hnodes ▸ hn, hid⟩⟩

theorem node_netWith_of_notMem {v : String} (hv : v ∉ d.nodeIds) :
    (d.netWith fs).graph.node v = .error (.nodeNotFound v) := by
  have hnodes : (d.netWith fs).graph.nodes = d.nodes := Listing.nodes_graph _
  have hmissing : v ∉ (d.netWith fs).graph.nodeIds := by
    rwa [Graph.nodeIds, hnodes, map_id_nodes]
  unfold Graph.node
  rw [Graph.slot_eq_error_iff.2 ⟨hmissing, rfl⟩]
  rfl

theorem insertEdge_netWith (hids : d.nodeIds.Nodup) (h : d.LegalFlows earlier)
    (hs : f.toFlow.key.source ∈ d.nodeIds) (ht : f.toFlow.key.target ∈ d.nodeIds) :
    (d.netWith earlier).graph.insertEdge f.toFlow =
      if (f.source, f.target) ∈ earlier.map (fun f => (f.source, f.target)) then
        .error (.duplicateEdge f.toFlow.key)
      else .ok (d.netWith (earlier ++ [f])).graph := by
  have hused : f.toFlow.key ∈ (earlier.map FlowRecord.toFlow).map Edge.key ↔
      (f.source, f.target) ∈ earlier.map fun f => (f.source, f.target) := by
    simp [FlowRecord.toFlow]
  have hinsert := Listing.graph_insertEdge (wellFormed_netWith hids h) f.toFlow
  unfold Listing.insertEdge Listing.nodeIds Listing.keys at hinsert
  dsimp only at hinsert
  rw [map_id_nodes, if_neg (not_not.2 hs), if_neg (not_not.2 ht)] at hinsert
  refine hinsert.trans ?_
  by_cases hmem : (f.source, f.target) ∈ earlier.map fun f => (f.source, f.target)
  · rw [if_pos hmem, if_pos (hused.2 hmem)]
    rfl
  · rw [if_neg hmem, if_neg (mt hused.1 hmem)]
    unfold netWith
    rw [List.map_append]
    rfl

/-- The checks of a call come in the order in which `flowFault?` makes them. -/
theorem addFlow_netWith (hids : d.nodeIds.Nodup) (h : d.LegalFlows earlier) :
    (d.netWith earlier).addFlow f.toFlow =
      unlessFault (d.flowFault? earlier f) (d.netWith (earlier ++ [f])) := by
  unfold Net.addFlow flowFault?
  dsimp only
  by_cases hweight : f.toFlow.data = 0
  · have hzero : f.weight = 0 := hweight
    rw [if_pos hweight, if_pos hzero]
    rfl
  have hpos : f.weight ≠ 0 := hweight
  rw [if_neg hweight, if_neg hpos]
  by_cases hs : f.source ∈ d.nodeIds
  case neg =>
    have hmissing : (d.netWith earlier).graph.node f.toFlow.key.source = _ := node_netWith_of_notMem hs
    rw [hmissing, if_pos hs]
    rfl
  obtain ⟨s, hsmem, hsource, hs'⟩ := node_netWith_of_mem hids h hs
  have hfound : (d.netWith earlier).graph.node f.toFlow.key.source = _ := hs'
  rw [hfound, if_neg (not_not.2 hs)]
  by_cases ht : f.target ∈ d.nodeIds
  case neg =>
    have hmissing : (d.netWith earlier).graph.node f.toFlow.key.target = _ := node_netWith_of_notMem ht
    rw [hmissing, if_pos ht]
    rfl
  obtain ⟨t, htmem, htarget, ht'⟩ := node_netWith_of_mem hids h ht
  have hfound' : (d.netWith earlier).graph.node f.toFlow.key.target = _ := ht'
  rw [hfound', if_neg (not_not.2 ht)]
  have hjoins := joins_iff hids hsmem htmem hsource htarget
  show (if s.data.isPlace = t.data.isPlace then _ else _) = _
  by_cases hkinds : s.data.isPlace = t.data.isPlace
  · rw [if_pos hkinds, if_pos (fun h => hjoins.1 h hkinds)]
    rfl
  · rw [if_neg hkinds, if_neg (not_not.2 (hjoins.2 hkinds)), insertEdge_netWith hids h hs ht]
    split_ifs <;> rfl

/-! ## The calls, one after the other -/

theorem foldlM_map_insertNode {α : Type} {add : Net → α → Except GraphError Net}
    {node : α → Node Element} (hadd : ∀ net a, add net a = (net.graph.insertNode (node a)).map Net.mk)
    (net : Net) (as : List α) :
    as.foldlM add net = ((as.map node).foldlM Graph.insertNode net.graph).map Net.mk := by
  induction as generalizing net with
  | nil => rfl
  | cons a as ih =>
    rw [List.foldlM_cons, List.map_cons, List.foldlM_cons, hadd]
    cases net.graph.insertNode (node a) with
    | error e => rfl
    | ok g => exact ih ⟨g⟩

theorem foldlM_nodes (d : NetDocument) (net : Net) :
    (do
      let withPlaces ← d.places.foldlM (fun net p => return (← Net.addPlace net p.toPlace).2) net
      d.transitions.foldlM (fun net t => return (← Net.addTransition net t.toTransition).2) withPlaces) =
      (d.nodes.foldlM Graph.insertNode net.graph).map Net.mk := by
  have hplace : ∀ (net : Net) (p : PlaceRecord), (do return (← net.addPlace p.toPlace).2) =
      (net.graph.insertNode p.toPlace.node).map Net.mk := by
    intro net p
    unfold Net.addPlace
    cases net.graph.insertNode p.toPlace.node <;> rfl
  have htransition : ∀ (net : Net) (t : TransitionRecord),
      (do return (← net.addTransition t.toTransition).2) =
        (net.graph.insertNode t.toTransition.node).map Net.mk := by
    intro net t
    unfold Net.addTransition
    cases net.graph.insertNode t.toTransition.node <;> rfl
  unfold nodes
  rw [List.foldlM_append, foldlM_map_insertNode hplace]
  cases (d.places.map fun p => p.toPlace.node).foldlM Graph.insertNode net.graph with
  | error e => rfl
  | ok g => exact foldlM_map_insertNode htransition ⟨g⟩ d.transitions

theorem toNet_eq (d : NetDocument) : d.toNet =
    (unlessFault (firstFault Listing.nodeFault? [] d.nodes) () >>= fun _ =>
      unlessFault (firstFault d.flowFault? [] d.flows) (d.netWith d.flows)) := by
  let start := (Net.empty d.name).modifyExtensions fun _ => .imported d.extensions
  have hnodes : d.nodes.foldlM Graph.insertNode start.graph =
      unlessFault (firstFault Listing.nodeFault? [] d.nodes) (d.netWith []).graph :=
    Listing.foldlM_insertNode d.name (.imported d.extensions) d.nodes
  unfold toNet
  rw [← bind_assoc, foldlM_nodes, hnodes]
  cases hfault : firstFault Listing.nodeFault? [] d.nodes with
  | some e => rfl
  | none =>
    have hids : d.nodeIds.Nodup := map_id_nodes d ▸ Listing.firstFault_nodeFault?.1 hfault
    refine foldlM_eq_firstFault (s := d.netWith) (fun earlier f h => ?_) d.flows
    exact addFlow_netWith hids (firstFault_flowFault?.1 h)

theorem toNet_eq_ok_iff : d.toNet = .ok net ↔ d.Valid ∧ d.netWith d.flows = net := by
  rw [toNet_eq]
  cases hfault : firstFault Listing.nodeFault? [] d.nodes with
  | some e =>
    constructor
    · nofun
    · rintro ⟨hvalid, -⟩
      rw [Listing.firstFault_nodeFault?.2 ((map_id_nodes d).symm ▸ hvalid.nodup_ids)] at hfault
      cases hfault
  | none =>
    have hids : d.nodeIds.Nodup := map_id_nodes d ▸ Listing.firstFault_nodeFault?.1 hfault
    show unlessFault _ _ = _ ↔ _
    rw [unlessFault_eq_ok_iff, firstFault_flowFault?]
    exact ⟨fun h => ⟨⟨hids, h.1⟩, h.2⟩, fun h => ⟨h.1.flows, h.2⟩⟩

theorem firstFault_nodes_eq_some_iff : firstFault Listing.nodeFault? [] d.nodes = some e ↔
    ∃ before id after, d.nodeIds = before ++ id :: after ∧ before.Nodup ∧ id ∈ before ∧
      .duplicateNode id = e := by
  rw [firstFault_eq_some_iff, ← map_id_nodes]
  constructor
  · rintro ⟨before, n, after, hsplit, hnone, hfault⟩
    refine ⟨before.map Node.id, n.id, after.map Node.id, by rw [hsplit, List.map_append, List.map_cons],
      Listing.firstFault_nodeFault?.1 hnone, ?_⟩
    unfold Listing.nodeFault? at hfault
    split at hfault
    · next hmem => exact ⟨hmem, Option.some.inj hfault⟩
    · cases hfault
  · rintro ⟨before, id, after, hsplit, hnodup, hmem, rfl⟩
    obtain ⟨before, rest, hnodes, rfl, hrest⟩ := List.map_eq_append_iff.1 hsplit
    obtain ⟨n, after, rfl, rfl, rfl⟩ := List.map_eq_cons_iff.1 hrest
    exact ⟨before, n, after, hnodes, Listing.firstFault_nodeFault?.2 hnodup, if_pos hmem⟩

theorem toNet_eq_error_iff : d.toNet = .error e ↔ d.Blames e := by
  rw [toNet_eq, bind_eq_error_iff, unlessFault_eq_error_iff, firstFault_nodes_eq_some_iff]
  simp only [unlessFault_eq_ok_iff, unlessFault_eq_error_iff, Listing.firstFault_nodeFault?,
    map_id_nodes]
  constructor
  · rintro (⟨before, id, after, hsplit, hnodup, hmem, rfl⟩ | ⟨-, ⟨hids, -⟩, hfault⟩)
    · exact .node hsplit hnodup hmem
    · obtain ⟨before, f, after, hsplit, hnone, hfault⟩ := firstFault_eq_some_iff.1 hfault
      exact .flow hids hsplit (firstFault_flowFault?.1 hnone) hfault
  · intro h
    cases h with
    | node hsplit hnodup hmem => exact .inl ⟨_, _, _, hsplit, hnodup, hmem, rfl⟩
    | flow hids hsplit hlegal hfault =>
      refine .inr ⟨(), ⟨hids, trivial⟩, firstFault_eq_some_iff.2 ⟨_, _, _, hsplit, ?_, hfault⟩⟩
      exact firstFault_flowFault?.2 hlegal

/-! ## Writing back what was read -/

theorem toRecord_toPlace (p : PlaceRecord) : p.toPlace.toRecord = p := by
  unfold Place.toRecord PlaceRecord.toPlace
  rw [Extensions.exported_imported]

theorem toRecord_toFlow (f : FlowRecord) : f.toFlow.toRecord = f := by
  unfold Flow.toRecord FlowRecord.toFlow
  rw [Extensions.exported_imported]

/-- A transition without a label gets its name as the label, which is not written. -/
theorem toRecord_toTransition (t : TransitionRecord) :
    t.toTransition.toRecord = { t with label := t.label.filter (· ≠ t.id) } := by
  obtain ⟨id, label, extensions⟩ := t
  unfold Transition.toRecord TransitionRecord.toTransition
  rw [Extensions.exported_imported]
  cases label with
  | none => simp
  | some label => by_cases h : label = id <;> simp [h, Option.filter]

theorem toDocument_netWith (d : NetDocument) :
    (d.netWith d.flows).toDocument = d.withoutOwnLabels := by
  unfold Net.toDocument
  have hplaces : (d.netWith d.flows).places.map Place.toRecord = d.places := by
    rw [places_netWith, List.map_map]
    exact (List.map_congr_left fun p _ => toRecord_toPlace p).trans (List.map_id d.places)
  have hflows : (d.netWith d.flows).flows.map Flow.toRecord = d.flows := by
    show (d.flows.map FlowRecord.toFlow).map Flow.toRecord = d.flows
    rw [List.map_map]
    exact (List.map_congr_left fun f _ => toRecord_toFlow f).trans (List.map_id d.flows)
  have hextensions : (d.netWith d.flows).extensions.exported = d.extensions :=
    Extensions.exported_imported d.extensions
  rw [hplaces, hflows, hextensions, transitions_netWith, List.map_map]
  unfold withoutOwnLabels
  congr 1
  exact List.map_congr_left fun t _ => toRecord_toTransition t

/-! ## Reading what was written -/

theorem placeIds_toDocument (net : Net) : net.toDocument.placeIds = net.placeIds := by
  unfold placeIds Net.placeIds Net.toDocument
  rw [List.map_map]
  rfl

theorem transitionIds_toDocument (net : Net) : net.toDocument.transitionIds = net.transitionIds := by
  unfold transitionIds Net.transitionIds Net.toDocument
  rw [List.map_map]
  rfl

theorem valid_toDocument (h : net.Built) : net.toDocument.Valid := by
  have hwell := h.wellFormed
  refine ⟨?_, fun f hf => ?_, ?_⟩
  · unfold nodeIds
    rw [placeIds_toDocument, transitionIds_toDocument]
    exact Net.nodup_ids hwell
  · obtain ⟨flow, hflow, rfl⟩ := List.mem_map.1 hf
    unfold Joins
    rw [placeIds_toDocument, transitionIds_toDocument]
    exact h.legal flow hflow
  · show ((net.flows.map Flow.toRecord).map fun f => (f.source, f.target)).Nodup
    have hends : (net.flows.map Flow.toRecord).map (fun f => (f.source, f.target)) =
        net.graph.keys.map fun k => (k.source, k.target) := by
      unfold Graph.keys
      rw [List.map_map, List.map_map]
      rfl
    rw [hends]
    refine hwell.graph.nodup_keys.map_on fun k hk l hl heq => ?_
    -- keys are told apart by their ends, since none of them has a label
    obtain ⟨source, target, label⟩ := k
    obtain rfl : label = none := hwell.unlabelled _ hk
    obtain ⟨source', target', label'⟩ := l
    obtain rfl : label' = none := hwell.unlabelled _ hl
    cases heq
    rfl

theorem alike_toDocument (h : net.WellFormed) :
    net.Alike (net.toDocument.netWith net.toDocument.flows) := by
  refine ⟨rfl, ?_, ?_, ?_⟩
  · rw [places_netWith]
    unfold Net.toDocument
    rw [List.map_map, List.map_map]
    rfl
  · rw [transitions_netWith]
    unfold Net.toDocument
    rw [List.map_map, List.map_map]
    refine List.map_congr_left fun t _ => Prod.ext rfl ?_
    show (if t.label = t.id then none else some t.label).getD t.id = t.label
    split
    · next hown => exact hown.symm
    · rfl
  · show ((net.flows.map Flow.toRecord).map FlowRecord.toFlow).map _ = _
    rw [List.map_map, List.map_map]
    refine List.map_congr_left fun f hf => ?_
    obtain ⟨⟨source, target, label⟩, weight, extensions⟩ := f
    obtain rfl : label = none := h.unlabelled _ (List.mem_map_of_mem hf)
    rfl

/-- A document is accepted if it is valid, or else refused for the first item at fault; what is accepted
is written as it was read, less the labels that say nothing; and the document of a net that has been
built gives a net that is like it in all but extensions, with the same answers to everything. -/
theorem toNet_faithful (d : NetDocument) :
    ((∃ net, d.toNet = .ok net) ↔ d.Valid) ∧ (∀ e, d.toNet = .error e ↔ d.Blames e) ∧
      (∀ net, d.toNet = .ok net → net.toDocument = d.withoutOwnLabels) ∧
      ∀ net : Net, net.Built →
        ∃ net', net.toDocument.toNet = .ok net' ∧ net.Alike net' ∧ net.SameAnswers net' := by
  refine ⟨?_, fun e => toNet_eq_error_iff, fun net hnet => ?_, fun net hnet => ?_⟩
  · simp only [toNet_eq_ok_iff]
    exact ⟨fun ⟨_, h, _⟩ => h, fun h => ⟨_, h, rfl⟩⟩
  · obtain ⟨-, rfl⟩ := toNet_eq_ok_iff.1 hnet
    exact toDocument_netWith d
  · have hread : net.toDocument.toNet = .ok _ := toNet_eq_ok_iff.2 ⟨valid_toDocument hnet, rfl⟩
    have halike := alike_toDocument hnet.wellFormed
    exact ⟨_, hread, halike,
      halike.sameAnswers hnet.wellFormed (Net.built_of_toNet hread).wellFormed⟩

/-- A bakery whose flow of flour was laid anew, with extensions of every policy. -/
def bakeryNet : Net := .ofScript "bakery" [.addPlace ⟨"flour", 4,
    ⟨[⟨"unit", .text "kg", .persist⟩, ⟨"tried", .flag true, .noCopy⟩], by decide⟩⟩,
  .createPlace "bread", .createPlace "dough", .addTransition ⟨"bake", "oven",
    ⟨[⟨"hour", .number 5, .persistOnly⟩, ⟨"shelf", .numbers [1, 2], .copy⟩], by decide⟩⟩,
  .createFlow "flour" "bake" 1, .createFlow "bake" "bread" 3, .createFlow "dough" "bake" 1,
  .removeFlow "flour" "bake", .createFlow "flour" "bake" 2, .removeNode "dough"]

/-- A bakery with one transition that is labelled with its name. -/
def bakeryDocument : NetDocument where
  name := "bakery"
  places := [⟨"flour", 4, .ofList [("unit", "kg")]⟩]
  transitions := [⟨"bake", some "bake", ∅⟩]
  flows := [⟨"flour", "bake", 2, ∅⟩]
  extensions := .ofList [("town", "Bath")]

theorem toNet_faithful_bakery :
    (∃ net, bakeryDocument.toNet = .ok net ∧
      net.toDocument = { bakeryDocument with transitions := [⟨"bake", none, ∅⟩] }) ∧
    NetDocument.toNet { bakeryDocument with flows := [⟨"flour", "bake", 2, ∅⟩, ⟨"flour", "bake", 0, ∅⟩] } =
      .error (.invalidWeight "flour" "bake" 0) ∧
    ∃ net', bakeryNet.toDocument.toNet = .ok net' ∧ net' ≠ bakeryNet ∧
      net'.incidence = bakeryNet.incidence ∧
      net'.fire (.ofCounts [4, 0]) (.name "bake") = .ok (.ofCounts [2, 3]) := by
  obtain ⟨haccept, -, hwritten, hbuilt⟩ := toNet_faithful bakeryDocument
  obtain ⟨net, hnet⟩ := haccept.2 ⟨by decide, by decide, by decide⟩
  obtain ⟨-, hblames, -, -⟩ := toNet_faithful
    { bakeryDocument with flows := [⟨"flour", "bake", 2, ∅⟩, ⟨"flour", "bake", 0, ∅⟩] }
  obtain ⟨net', hread, halike, hsame⟩ := hbuilt bakeryNet (Net.built_ofScript _ _)
  refine ⟨⟨net, hnet, ?_⟩, ?_, net', hread, ?_, hsame.incidence, ?_⟩
  · rw [hwritten net hnet]
    decide
  · have hsplit : [⟨"flour", "bake", 2, ∅⟩, ⟨"flour", "bake", 0, ∅⟩] =
        [⟨"flour", "bake", 2, ∅⟩] ++ (⟨"flour", "bake", 0, ∅⟩ : FlowRecord) :: [] := rfl
    exact (hblames _).2 (.flow (by decide) hsplit ⟨by decide, by decide⟩ (by decide))
  · rintro rfl
    revert hread
    decide
  · rw [hsame.fire]
    decide

end NetDocument

end PetriNets
