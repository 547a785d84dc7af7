import PetriNets.Proofs.FirstFault
import PetriNets.Proofs.Graph.Listing

/-!
# The graph of a listing

A well-formed graph is determined by the nodes and edges it lists (`WellFormed.graph_listing`), and any
listing is that of a well-formed graph if names and keys are unique and edges end at nodes. So graphs can
be put together on the lists alone: adding nodes to a graph without edges fails with the first name that
stands there already (`foldlM_insertNode`), and the same holds of edges (`foldlM_insertEdge`).
-/

namespace PetriNets

variable {α β : Type}

namespace Listing

variable {l : Listing α β}

/-- The graph that lists just this. -/
def graph (l : Listing α β) : Graph α β :=
  ⟨l.name, l.extensions, l.nodes.map (Slot.ofKeys l.keys), l.edges⟩

@[simp] theorem listing_graph (l : Listing α β) : l.graph.listing = l :=
  Graph.listing_ofKeys l.name l.extensions l.nodes l.keys l.edges

@[simp] theorem nodes_graph (l : Listing α β) : l.graph.nodes = l.nodes := Slot.map_node_ofKeys _ _

theorem wellFormed_graph (hids : l.nodeIds.Nodup) (hkeys : l.keys.Nodup)
    (hends : ∀ k ∈ l.keys, k.source ∈ l.nodeIds ∧ k.target ∈ l.nodeIds) : l.graph.WellFormed :=
  Graph.wellFormed_of_eq l.nodes l.keys (nodes_graph l) rfl hids hkeys hends rfl

end Listing

namespace Graph

variable {g : Graph α β}

theorem WellFormed.graph_listing (h : g.WellFormed) : g.listing.graph = g := by
  obtain ⟨name, extensions, slots, edges⟩ := g
  exact congrArg (Graph.mk name extensions · edges) h.slots_eq.symm

end Graph

namespace Listing

variable {l : Listing α β}

theorem graph_insertEdge (h : l.graph.WellFormed) (e : Edge β) :
    l.graph.insertEdge e = (l.insertEdge e).map graph := by
  have hlisting := Graph.listing_insertEdge h e
  rw [listing_graph] at hlisting
  rw [hlisting]
  cases hg : l.graph.insertEdge e with
  | error err => rfl
  | ok g => exact congrArg Except.ok (h.insertEdge hg).graph_listing.symm

/-! ## Adding nodes, then edges -/

/-- Why a node cannot be added after others. -/
def nodeFault? (earlier : List (Node α)) (n : Node α) : Option GraphError :=
  if n.id ∈ earlier.map Node.id then some (.duplicateNode n.id) else none

theorem firstFault_nodeFault? {ns : List (Node α)} :
    firstFault nodeFault? [] ns = none ↔ (ns.map Node.id).Nodup := by
  rw [firstFault_eq_none_iff (p := fun _ => True) (k := Node.id)]
  · simp
  · simp [nodeFault?]

theorem foldlM_insertNode (name : String) (extensions : Extensions) (ns : List (Node α)) :
    ns.foldlM Graph.insertNode (⟨name, extensions, [], []⟩ : Listing α β).graph =
      unlessFault (firstFault nodeFault? [] ns) (⟨name, extensions, ns, []⟩ : Listing α β).graph := by
  let state (ns : List (Node α)) := (⟨name, extensions, ns, []⟩ : Listing α β).graph
  refine foldlM_eq_firstFault (s := state) (fun earlier n _ => ?_) ns
  have hcontains : (state earlier).containsNode n.id = true ↔ n.id ∈ earlier.map Node.id := by
    rw [Graph.containsNode_iff, Graph.nodeIds, nodes_graph]
  unfold Graph.insertNode nodeFault?
  by_cases hn : n.id ∈ earlier.map Node.id
  · rw [if_pos (hcontains.2 hn), if_pos hn]
    rfl
  · rw [if_neg (mt hcontains.1 hn), if_neg hn]
    simp [state, graph, keys, Slot.ofKeys, unlessFault]

/-- Why an edge cannot be added after others. -/
def edgeFault? (ids : List String) (earlier : List (Edge β)) (e : Edge β) : Option GraphError :=
  if e.key.source ∉ ids then some (.nodeNotFound e.key.source)
  else if e.key.target ∉ ids then some (.nodeNotFound e.key.target)
  else if e.key ∈ earlier.map Edge.key then some (.duplicateEdge e.key)
  else none

theorem edgeFault?_eq_none_iff {ids : List String} {earlier : List (Edge β)} {e : Edge β} :
    edgeFault? ids earlier e = none ↔
      (e.key.source ∈ ids ∧ e.key.target ∈ ids) ∧ e.key ∉ earlier.map Edge.key := by
  unfold edgeFault?
  by_cases hs : e.key.source ∈ ids <;> by_cases ht : e.key.target ∈ ids <;> simp [hs, ht]

theorem firstFault_edgeFault? {ids : List String} {es : List (Edge β)} :
    firstFault (edgeFault? ids) [] es = none ↔
      (∀ e ∈ es, e.key.source ∈ ids ∧ e.key.target ∈ ids) ∧ (es.map Edge.key).Nodup :=
  firstFault_eq_none_iff fun _ _ => edgeFault?_eq_none_iff

theorem foldlM_insertEdge (name : String) (extensions : Extensions) {ns : List (Node α)}
    (hids : (ns.map Node.id).Nodup) (es : List (Edge β)) :
    es.foldlM Graph.insertEdge (⟨name, extensions, ns, []⟩ : Listing α β).graph =
      unlessFault (firstFault (edgeFault? (ns.map Node.id)) [] es)
        (⟨name, extensions, ns, es⟩ : Listing α β).graph := by
  let state (es : List (Edge β)) := (⟨name, extensions, ns, es⟩ : Listing α β).graph
  refine foldlM_eq_firstFault (s := state) (fun earlier e hearlier => ?_) es
  obtain ⟨hends, hkeys⟩ := firstFault_edgeFault?.1 hearlier
  have hwell : (⟨name, extensions, ns, earlier⟩ : Listing α β).graph.WellFormed :=
    wellFormed_graph hids hkeys (List.forall_mem_map.2 hends)
  rw [graph_insertEdge hwell]
  unfold insertEdge edgeFault? nodeIds keys
  dsimp only
  split_ifs <;> rfl

end Listing

end PetriNets
