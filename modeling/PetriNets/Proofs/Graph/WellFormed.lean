import Mathlib.Data.List.Nodup
import PetriNets.Graph.Basic
import PetriNets.Proofs.Except

/-!
# Well-formed graphs

A graph keeps every edge three times: in its list of edges, with the node that the edge leaves and
with the node that it enters. `WellFormed` says that the three agree, in content and in order
(`slots_eq`), besides that no name and no key stands for two things and that edges end at nodes. Each
operation keeps this, and what it does to nodes and edges is told by an equation. On a well-formed
graph the edges at a node can be read off the list of edges (`presetEdges_eq`, `postsetEdges_eq`).
-/

namespace PetriNets

/-- Where keys are unique, searching for one finds the item that has it. -/
theorem find?_key_eq_some_iff {γ κ : Type} [DecidableEq κ] {key : γ → κ} {xs : List γ} {k : κ} {x : γ}
    (hnodup : (xs.map key).Nodup) : xs.find? (key · = k) = some x ↔ x ∈ xs ∧ key x = k := by
  constructor
  · intro hx
    exact ⟨List.mem_of_find?_eq_some hx, by simpa using List.find?_some hx⟩
  · rintro ⟨hx, rfl⟩
    cases hfind : xs.find? (key · = key x) with
    | none => simpa using List.find?_eq_none.1 hfind x hx
    | some y =>
      have hkey : key y = key x := by simpa using List.find?_some hfind
      rw [List.inj_on_of_nodup_map hnodup (List.mem_of_find?_eq_some hfind) hx hkey]

/-- The slot of a node in a graph whose edges have these keys. -/
def Slot.ofKeys {α : Type} (keys : List EdgeKey) (n : Node α) : Slot α where
  node := n
  incoming := keys.filter fun k => k.target = n.id
  outgoing := keys.filter fun k => k.source = n.id

theorem Slot.map_node_ofKeys {α : Type} (keys : List EdgeKey) (ns : List (Node α)) :
    (ns.map (Slot.ofKeys keys)).map Slot.node = ns := by
  rw [List.map_map]
  exact List.map_id ns

/-- Whether the edge begins or ends at a node. -/
def EdgeKey.touches (k : EdgeKey) (id : String) : Bool := k.source = id || k.target = id

/-- Where a key is not wanted, leaving it out makes no difference. -/
theorem filter_ne_of_not {keys : List EdgeKey} {key : EdgeKey} {p : EdgeKey → Bool}
    (hp : p key = false) : (keys.filter (· ≠ key)).filter p = keys.filter p := by
  rw [List.filter_filter]
  refine List.filter_congr fun k _ => ?_
  by_cases hk : k = key
  · simp [hk, hp]
  · simp [hk]

namespace Graph

variable {α β : Type} {g g' : Graph α β} {id : String} {key k : EdgeKey} {n : Node α} {e : Edge β}

/-- The keys of the edges, in order. -/
def keys (g : Graph α β) : List EdgeKey := g.edges.map Edge.key

/-- Names and keys are unique, edges end at nodes, and nodes know their edges in the order of the
list of edges. -/
structure WellFormed (g : Graph α β) : Prop where
  nodup_nodeIds : g.nodeIds.Nodup
  nodup_keys : g.keys.Nodup
  ends_mem : ∀ k ∈ g.keys, k.source ∈ g.nodeIds ∧ k.target ∈ g.nodeIds
  slots_eq : g.slots = g.nodes.map (Slot.ofKeys g.keys)

theorem wellFormed_empty (name : String) : (empty name : Graph α β).WellFormed :=
  ⟨.nil, .nil, nofun, rfl⟩

/-! ## Looking up -/

theorem mem_nodeIds : id ∈ g.nodeIds ↔ ∃ n ∈ g.nodes, n.id = id := by
  simp [nodeIds]

theorem containsNode_iff : g.containsNode id = true ↔ id ∈ g.nodeIds := by
  simp [containsNode, slot?, nodeIds, nodes]

theorem containsEdge_iff : g.containsEdge key = true ↔ key ∈ g.keys := by
  simp [containsEdge, edge?, keys]

theorem keys_modifyEdgeExtensions (key : EdgeKey) (f : Extensions → Extensions) :
    (g.modifyEdgeExtensions key f).keys = g.keys := by
  unfold keys modifyEdgeExtensions
  rw [List.map_map]
  refine List.map_congr_left fun e _ => ?_
  rw [Function.comp_apply]
  split <;> rfl

theorem nodeIds_modifyNodeExtensions (id : String) (f : Extensions → Extensions) :
    (g.modifyNodeExtensions id f).nodeIds = g.nodeIds := by
  unfold nodeIds nodes modifyNodeExtensions modifySlot
  simp only [List.map_map]
  refine List.map_congr_left fun s _ => ?_
  simp only [Function.comp_apply]
  split <;> rfl

theorem nodeIds_copied (g : Graph α β) : g.copied.nodeIds = g.nodeIds := by
  unfold nodeIds nodes copied
  simp only [List.map_map]
  rfl

theorem keys_copied (g : Graph α β) : g.copied.keys = g.keys := by
  unfold keys copied
  rw [List.map_map]
  rfl

theorem slot?_eq_none_iff : g.slot? id = none ↔ id ∉ g.nodeIds := by
  rw [← containsNode_iff, containsNode, Option.not_isSome_iff_eq_none]

theorem map_node_slot? : (g.slot? id).map Slot.node = g.nodes.find? (·.id = id) := by
  unfold slot? nodes
  rw [List.find?_map]
  rfl

namespace WellFormed

variable (h : g.WellFormed)
include h

theorem find?_node_eq_some_iff : g.nodes.find? (·.id = id) = some n ↔ n ∈ g.nodes ∧ n.id = id :=
  find?_key_eq_some_iff h.nodup_nodeIds

theorem edge?_eq_some_iff : g.edge? key = some e ↔ e ∈ g.edges ∧ e.key = key :=
  find?_key_eq_some_iff h.nodup_keys

/-- What the graph has under the name of one of its nodes. -/
theorem slot?_eq (hn : n ∈ g.nodes) : g.slot? n.id = some (.ofKeys g.keys n) := by
  have hfind : g.nodes.find? (·.id = n.id) = some n := h.find?_node_eq_some_iff.2 ⟨hn, rfl⟩
  unfold slot?
  rw [h.slots_eq, List.find?_map]
  show (g.nodes.find? (·.id = n.id)).map _ = _
  rw [hfind, Option.map_some]

theorem slot?_eq_some_iff {s : Slot α} :
    g.slot? id = some s ↔ ∃ n ∈ g.nodes, n.id = id ∧ s = .ofKeys g.keys n := by
  constructor
  · intro hs
    have hid : id ∈ g.nodeIds := by
      by_contra hno
      rw [slot?_eq_none_iff.2 hno] at hs
      cases hs
    obtain ⟨n, hn, rfl⟩ := mem_nodeIds.1 hid
    rw [h.slot?_eq hn] at hs
    exact ⟨n, hn, rfl, (Option.some.inj hs).symm⟩
  · rintro ⟨n, hn, rfl, rfl⟩
    exact h.slot?_eq hn

theorem node_eq_ok_iff : g.node id = .ok n ↔ n ∈ g.nodes ∧ n.id = id := by
  unfold node slot
  rw [map_eq_ok_iff, ← h.find?_node_eq_some_iff, ← map_node_slot?]
  cases g.slot? id <;> simp

/-- Looking up the keys that pass a test gives the edges whose keys pass it. -/
theorem filterMap_edge? (p : EdgeKey → Bool) :
    (g.keys.filter p).filterMap g.edge? = g.edges.filter fun e => p e.key := by
  have hkeys : g.keys.filter p = (g.edges.filter fun e => p e.key).map Edge.key := by
    unfold keys
    rw [List.filter_map]
    rfl
  have hsome : ∀ e ∈ g.edges.filter fun e => p e.key, (g.edge? ∘ Edge.key) e = some e := by
    intro e he
    exact h.edge?_eq_some_iff.2 ⟨List.mem_of_mem_filter he, rfl⟩
  rw [hkeys, List.filterMap_map, List.filterMap_congr hsome]
  exact List.filterMap_some

theorem presetEdges_eq (hid : id ∈ g.nodeIds) :
    g.presetEdges id = .ok (g.edges.filter fun e => e.key.target = id) := by
  obtain ⟨n, hn, rfl⟩ := mem_nodeIds.1 hid
  unfold presetEdges slot
  rw [h.slot?_eq hn]
  exact congrArg Except.ok (h.filterMap_edge? fun k => k.target = n.id)

theorem postsetEdges_eq (hid : id ∈ g.nodeIds) :
    g.postsetEdges id = .ok (g.edges.filter fun e => e.key.source = id) := by
  obtain ⟨n, hn, rfl⟩ := mem_nodeIds.1 hid
  unfold postsetEdges slot
  rw [h.slot?_eq hn]
  exact congrArg Except.ok (h.filterMap_edge? fun k => k.source = n.id)

end WellFormed

theorem slot_eq_error_iff {err : GraphError} :
    g.slot id = .error err ↔ id ∉ g.nodeIds ∧ err = .nodeNotFound id := by
  rw [← slot?_eq_none_iff]
  unfold slot
  cases g.slot? id <;> simp [eq_comm]

/-! ## Adding and taking out -/

theorem insertNode_eq_ok_iff : g.insertNode n = .ok g' ↔
    n.id ∉ g.nodeIds ∧ { g with slots := g.slots ++ [⟨n, [], []⟩] } = g' := by
  rw [← containsNode_iff]
  unfold insertNode
  cases g.containsNode n.id <;> simp

namespace WellFormed

variable (h : g.WellFormed)
include h

/-- A name that is no node's has no edges either. -/
theorem presetEdges_getD (id : String) :
    (g.presetEdges id).toOption.getD [] = g.edges.filter fun e => e.key.target = id := by
  by_cases hid : id ∈ g.nodeIds
  · rw [h.presetEdges_eq hid]
    rfl
  · have hnone : g.edges.filter (fun e => e.key.target = id) = [] := by
      refine List.filter_eq_nil_iff.2 fun e he htarget => hid ?_
      rw [← of_decide_eq_true htarget]
      exact (h.ends_mem e.key (List.mem_map_of_mem he)).2
    unfold presetEdges
    rw [hnone, slot_eq_error_iff.2 ⟨hid, rfl⟩]
    rfl

theorem postsetEdges_getD (id : String) :
    (g.postsetEdges id).toOption.getD [] = g.edges.filter fun e => e.key.source = id := by
  by_cases hid : id ∈ g.nodeIds
  · rw [h.postsetEdges_eq hid]
    rfl
  · have hnone : g.edges.filter (fun e => e.key.source = id) = [] := by
      refine List.filter_eq_nil_iff.2 fun e he hsource => hid ?_
      rw [← of_decide_eq_true hsource]
      exact (h.ends_mem e.key (List.mem_map_of_mem he)).1
    unfold postsetEdges
    rw [hnone, slot_eq_error_iff.2 ⟨hid, rfl⟩]
    rfl

end WellFormed

theorem exists_slot_iff : (∃ s, g.slot id = .ok s) ↔ id ∈ g.nodeIds := by
  rw [← containsNode_iff, containsNode]
  unfold slot
  cases g.slot? id <;> simp

/-- If the ends of an edge change the keys they know as the key of this edge asks for, then each
node knows the changed keys. -/
theorem modifyEnds_eq {keys keys' : List EdgeKey} {f : List EdgeKey → List EdgeKey}
    (hslots : g.slots = g.nodes.map (Slot.ofKeys keys))
    (hend : ∀ p : EdgeKey → Bool, p key = true → f (keys.filter p) = keys'.filter p)
    (helse : ∀ p : EdgeKey → Bool, p key = false → keys.filter p = keys'.filter p) :
    g.modifyEnds key f = { g with slots := g.nodes.map (Slot.ofKeys keys') } := by
  suffices hmap : (g.modifyEnds key f).slots = g.nodes.map (Slot.ofKeys keys') by
    rw [← hmap]
    rfl
  unfold modifyEnds modifySlot
  rw [hslots, List.map_map, List.map_map]
  refine List.map_congr_left fun n _ => ?_
  have hout : (if n.id = key.source then f (keys.filter (·.source = n.id)) else
      keys.filter (·.source = n.id)) = keys'.filter (·.source = n.id) := by
    split
    · next hs => exact hend _ (by simp [hs])
    · next hs => exact helse _ (by simpa using Ne.symm hs)
  have hin : (if n.id = key.target then f (keys.filter (·.target = n.id)) else
      keys.filter (·.target = n.id)) = keys'.filter (·.target = n.id) := by
    split
    · next ht => exact hend _ (by simp [ht])
    · next ht => exact helse _ (by simpa using Ne.symm ht)
  unfold Slot.ofKeys
  rw [← hout, ← hin]
  simp only [Function.comp_apply]
  split_ifs <;> rfl

theorem insertEdge_eq_ok_iff (h : g.WellFormed) : g.insertEdge e = .ok g' ↔
    e.key.source ∈ g.nodeIds ∧ e.key.target ∈ g.nodeIds ∧ e.key ∉ g.keys ∧
      { g with
        slots := g.nodes.map (Slot.ofKeys (g.keys ++ [e.key]))
        edges := g.edges ++ [e] } = g' := by
  rw [← exists_slot_iff, ← exists_slot_iff, ← containsEdge_iff]
  unfold insertEdge
  simp only [bind_eq_ok_iff, exists_and_right]
  refine and_congr_right fun _ => and_congr_right fun _ => ?_
  cases hnew : g.containsEdge e.key
  · have hkey : e.key ∉ g.keys := by
      rw [← containsEdge_iff, hnew]
      exact Bool.false_ne_true
    -- the key is new, so neither end has noted it before
    have hends : ({ g with edges := g.edges ++ [e] } : Graph α β).modifyEnds e.key e.key.addTo =
        { g with
          slots := g.nodes.map (Slot.ofKeys (g.keys ++ [e.key]))
          edges := g.edges ++ [e] } :=
      modifyEnds_eq h.slots_eq (fun p hp => by simp [EdgeKey.addTo, hkey, hp])
        (fun p hp => by simp [hp])
    rw [← hends]
    exact ⟨fun h => ⟨nofun, Except.ok.inj h⟩, fun h => congrArg Except.ok h.2⟩
  · exact ⟨nofun, fun h => absurd rfl h.1⟩

/-- An edge whose ends are there is refused if there is one of its key. -/
theorem insertEdge_eq_duplicateEdge (hsource : e.key.source ∈ g.nodeIds)
    (htarget : e.key.target ∈ g.nodeIds) (hkey : e.key ∈ g.keys) :
    g.insertEdge e = .error (.duplicateEdge e.key) := by
  obtain ⟨s, hs⟩ := exists_slot_iff.2 hsource
  obtain ⟨t, ht⟩ := exists_slot_iff.2 htarget
  unfold insertEdge
  rw [hs, ht, containsEdge_iff.2 hkey]
  rfl

theorem removeEdge_eq_ok_iff (h : g.WellFormed) : g.removeEdge key = .ok (e, g') ↔
    e ∈ g.edges ∧ e.key = key ∧
      { g with
        slots := g.nodes.map (Slot.ofKeys (g.keys.filter (· ≠ key)))
        edges := g.edges.filter (·.key ≠ key) } = g' := by
  have hends : ({ g with edges := g.edges.filter (·.key ≠ key) } : Graph α β).modifyEnds key
      (fun keys => keys.filter (· ≠ key)) =
        { g with
          slots := g.nodes.map (Slot.ofKeys (g.keys.filter (· ≠ key)))
          edges := g.edges.filter (·.key ≠ key) } :=
    modifyEnds_eq h.slots_eq (fun p _ => by simp only [List.filter_filter, Bool.and_comm])
      (fun p hp => (filter_ne_of_not hp).symm)
  rw [← and_assoc, ← h.edge?_eq_some_iff, ← hends]
  unfold removeEdge edge
  cases g.edge? key with
  | none => exact ⟨nofun, nofun⟩
  | some e' =>
    show Except.ok (e', _) = Except.ok (e, g') ↔ _
    simp only [Except.ok.injEq, Prod.mk.injEq, Option.some.injEq]

/-- An edge of a node that is not there any more goes with what its other end knows of it. If it has
gone already, nothing changes. -/
theorem dropEdge_eq (hslots : g.slots = g.nodes.map (Slot.ofKeys g.keys)) (hid : id ∉ g.nodeIds)
    (hkey : key.touches id = true) :
    dropEdge id g key = { g with
      slots := g.nodes.map (Slot.ofKeys (g.keys.filter (· ≠ key)))
      edges := g.edges.filter (·.key ≠ key) } := by
  unfold dropEdge
  by_cases hmem : key ∈ g.keys
  · rw [containsEdge_iff.2 hmem, if_pos rfl]
    suffices hmap : g.slots.map (fun s =>
        if s.node.id = (if key.source = id then key.target else key.source) then s.forget key else s) =
        g.nodes.map (Slot.ofKeys (g.keys.filter (· ≠ key))) by
      rw [← hmap]
      rfl
    rw [hslots, List.map_map]
    refine List.map_congr_left fun n hn => ?_
    have hne : n.id ≠ id := fun e => hid (mem_nodeIds.2 ⟨n, hn, e⟩)
    rw [Function.comp_apply]
    by_cases hother : n.id = if key.source = id then key.target else key.source
    · rw [if_pos (show (Slot.ofKeys g.keys n).node.id = _ from hother)]
      simp only [Slot.forget, Slot.ofKeys, List.filter_filter, Bool.and_comm]
    · -- the edge does not end at this node
      have hends : key.source ≠ n.id ∧ key.target ≠ n.id := by
        unfold EdgeKey.touches at hkey
        grind
      rw [if_neg (show (Slot.ofKeys g.keys n).node.id ≠ _ from hother)]
      unfold Slot.ofKeys
      rw [filter_ne_of_not (by simpa using hends.2), filter_ne_of_not (by simpa using hends.1)]
  · have hkeys : g.keys.filter (· ≠ key) = g.keys :=
      List.filter_eq_self.2 fun k hk => by simpa using fun e : k = key => hmem (e ▸ hk)
    have hedges : g.edges.filter (·.key ≠ key) = g.edges := List.filter_eq_self.2 fun e he => by
      simpa using fun hek : e.key = key => hmem (hek ▸ List.mem_map_of_mem he)
    have hno : g.containsEdge key = false := by simpa using mt containsEdge_iff.1 hmem
    rw [hno, if_neg Bool.false_ne_true, hkeys, hedges, ← hslots]

theorem foldl_dropEdge_eq (ks : List EdgeKey) (hslots : g.slots = g.nodes.map (Slot.ofKeys g.keys))
    (hid : id ∉ g.nodeIds) (hks : ∀ k ∈ ks, k.touches id = true) :
    ks.foldl (dropEdge id) g = { g with
      slots := g.nodes.map (Slot.ofKeys (g.keys.filter (· ∉ ks)))
      edges := g.edges.filter (·.key ∉ ks) } := by
  induction ks generalizing g with
  | nil => simp [← hslots]
  | cons k ks ih =>
    obtain ⟨hk, hrest⟩ := List.forall_mem_cons.1 hks
    have hdrop := dropEdge_eq hslots hid hk
    have hnodes : (dropEdge id g k).nodes = g.nodes := by simp [hdrop, nodes, Slot.ofKeys]
    have hkeys : (dropEdge id g k).keys = g.keys.filter (· ≠ k) := by
      simp [hdrop, keys, List.filter_map, Function.comp_def]
    have hstep := ih (g := dropEdge id g k) (by rw [hnodes, hkeys, hdrop])
      (by unfold nodeIds; rwa [hnodes]) hrest
    rw [List.foldl_cons, hstep, hnodes, hkeys, hdrop]
    simp only [List.filter_filter, List.mem_cons, not_or, Bool.decide_and, Bool.and_comm]

theorem removeNode_eq_ok_iff (h : g.WellFormed) : g.removeNode id = .ok (n, g') ↔
    n ∈ g.nodes ∧ n.id = id ∧
      { g with
        slots := (g.nodes.filter (·.id ≠ id)).map (Slot.ofKeys (g.keys.filter fun k => !k.touches id))
        edges := g.edges.filter fun e => !e.key.touches id } = g' := by
  rw [← and_assoc, ← h.find?_node_eq_some_iff]
  unfold removeNode slot
  cases hs : g.slot? id with
  | none =>
    rw [← map_node_slot?, hs]
    exact ⟨nofun, nofun⟩
  | some s =>
    obtain ⟨n', hn', rfl, rfl⟩ := h.slot?_eq_some_iff.1 hs
    -- what is left when the slot has gone, but not yet the edges
    have hnodes : (g.slots.filter (·.node.id ≠ n'.id)).map Slot.node =
        g.nodes.filter (·.id ≠ n'.id) := by
      unfold nodes
      rw [List.filter_map]
      rfl
    have hslots : g.slots.filter (·.node.id ≠ n'.id) =
        (g.nodes.filter (·.id ≠ n'.id)).map (Slot.ofKeys g.keys) := by
      conv_lhs => rw [h.slots_eq]
      rw [List.filter_map]
      rfl
    have hgone : n'.id ∉ ((g.slots.filter (·.node.id ≠ n'.id)).map Slot.node).map Node.id := by
      rw [hnodes]
      simp
    have hdrop := foldl_dropEdge_eq (g := { g with slots := g.slots.filter (·.node.id ≠ n'.id) })
      (g.keys.filter (·.target = n'.id) ++ g.keys.filter (·.source = n'.id))
      (by rw [nodes, hnodes]; exact hslots) hgone (by simp +contextual [EdgeKey.touches, or_imp])
    have htouch : ∀ k ∈ g.keys, (decide (k ∉ g.keys.filter (·.target = n'.id) ++
        g.keys.filter (·.source = n'.id))) = !k.touches n'.id := by
      intro k hk
      simp [EdgeKey.touches, hk, Bool.and_comm]
    have hkeys : g.keys.filter _ = g.keys.filter fun k => !k.touches n'.id :=
      List.filter_congr htouch
    have hedges : g.edges.filter _ = g.edges.filter fun e => !e.key.touches n'.id :=
      List.filter_congr fun e he => htouch e.key (List.mem_map_of_mem he)
    rw [← map_node_slot?, hs, ← hkeys, ← hedges, ← hnodes]
    show Except.ok (n', List.foldl _ _ (g.keys.filter _ ++ g.keys.filter _)) = _ ↔ _
    rw [hdrop]
    simp only [Except.ok.injEq, Prod.mk.injEq, Option.map_some, Option.some.injEq]
    rfl

/-! ## What operations do to the lists of nodes and edges -/

theorem lists_insertNode (hg : g.insertNode n = .ok g') :
    g'.nodes = g.nodes ++ [n] ∧ g'.edges = g.edges := by
  obtain ⟨-, rfl⟩ := insertNode_eq_ok_iff.1 hg
  exact ⟨by simp [nodes], rfl⟩

/-- Changing what an end knows of its edges changes no node. -/
theorem nodes_modifySlot {f : Slot α → Slot α} (id : String) (hf : ∀ s, (f s).node = s.node) :
    (g.modifySlot id f).nodes = g.nodes := by
  unfold modifySlot nodes
  rw [List.map_map]
  refine List.map_congr_left fun s _ => ?_
  rw [Function.comp_apply]
  split
  · exact hf s
  · rfl

theorem nodes_modifyEnds (key : EdgeKey) (f : List EdgeKey → List EdgeKey) :
    (g.modifyEnds key f).nodes = g.nodes := by
  unfold modifyEnds
  rw [nodes_modifySlot, nodes_modifySlot] <;> exact fun _ => rfl

theorem lists_insertEdge (hg : g.insertEdge e = .ok g') :
    g'.nodes = g.nodes ∧ g'.edges = g.edges ++ [e] := by
  unfold insertEdge at hg
  obtain ⟨_, -, hg⟩ := bind_eq_ok_iff.1 hg
  obtain ⟨_, -, hg⟩ := bind_eq_ok_iff.1 hg
  split at hg
  · cases hg
  · obtain rfl := Except.ok.inj hg
    exact ⟨nodes_modifyEnds _ _, rfl⟩

theorem nodes_modifyData (id : String) (f : α → α) : (g.modifyData id f).nodes =
    g.nodes.map fun n => if n.id = id then { n with data := f n.data } else n := by
  unfold modifyData modifySlot nodes
  rw [List.map_map, List.map_map]
  refine List.map_congr_left fun s _ => ?_
  simp only [Function.comp_apply]
  split <;> rfl

namespace WellFormed

variable (h : g.WellFormed)
include h

theorem lists_removeEdge (hg : g.removeEdge key = .ok (e, g')) :
    g'.nodes = g.nodes ∧ g'.edges = g.edges.filter (·.key ≠ key) := by
  obtain ⟨-, -, rfl⟩ := (removeEdge_eq_ok_iff h).1 hg
  exact ⟨Slot.map_node_ofKeys _ _, rfl⟩

theorem lists_removeNode (hg : g.removeNode id = .ok (n, g')) :
    (n ∈ g.nodes ∧ n.id = id) ∧ g'.nodes = g.nodes.filter (fun m => m.id ≠ id) ∧
      g'.edges = g.edges.filter fun e => !e.key.touches id := by
  obtain ⟨hn, hid, rfl⟩ := (removeNode_eq_ok_iff h).1 hg
  exact ⟨⟨hn, hid⟩, Slot.map_node_ofKeys _ _, rfl⟩

end WellFormed

/-! ## Every operation keeps graphs well-formed -/

theorem wellFormed_of_eq (nodes : List (Node α)) (keys : List EdgeKey) (hnodes : g.nodes = nodes)
    (hkeys : g.keys = keys) (hids : (nodes.map Node.id).Nodup) (hnodup : keys.Nodup)
    (hends : ∀ k ∈ keys, k.source ∈ nodes.map Node.id ∧ k.target ∈ nodes.map Node.id)
    (hslots : g.slots = nodes.map (Slot.ofKeys keys)) : g.WellFormed := by
  subst hnodes hkeys
  exact ⟨hids, hnodup, hends, hslots⟩

namespace WellFormed

variable (h : g.WellFormed)
include h

theorem insertNode (hg : g.insertNode n = .ok g') : g'.WellFormed := by
  obtain ⟨hnew, rfl⟩ := insertNode_eq_ok_iff.1 hg
  -- no edge ends at a node that was not there
  have hslot : Slot.ofKeys g.keys n = ⟨n, [], []⟩ := by
    have hout : ∀ k ∈ g.keys, k.source ≠ n.id := fun k hk hs => hnew (hs ▸ (h.ends_mem k hk).1)
    have hin : ∀ k ∈ g.keys, k.target ≠ n.id := fun k hk ht => hnew (ht ▸ (h.ends_mem k hk).2)
    simpa [Slot.ofKeys] using ⟨hin, hout⟩
  refine wellFormed_of_eq (g.nodes ++ [n]) g.keys (by simp [nodes]) rfl ?_ h.nodup_keys ?_ ?_
  · rw [List.map_append]
    exact h.nodup_nodeIds.append (List.nodup_singleton _) (by simpa using hnew)
  · intro k hk
    rw [List.map_append]
    have hends := h.ends_mem k hk
    exact ⟨List.mem_append_left _ hends.1, List.mem_append_left _ hends.2⟩
  · show g.slots ++ [⟨n, [], []⟩] = _
    rw [List.map_append, ← h.slots_eq, List.map_singleton, hslot]

theorem insertEdge (hg : g.insertEdge e = .ok g') : g'.WellFormed := by
  obtain ⟨hsource, htarget, hnew, rfl⟩ := (insertEdge_eq_ok_iff h).1 hg
  refine wellFormed_of_eq g.nodes (g.keys ++ [e.key]) ?_ (by simp [keys]) h.nodup_nodeIds ?_ ?_ rfl
  · exact Slot.map_node_ofKeys _ _
  · exact h.nodup_keys.append (List.nodup_singleton _) (by simpa using hnew)
  · intro k hk
    rcases List.mem_append.1 hk with hk | hk
    · exact h.ends_mem k hk
    · obtain rfl := List.mem_singleton.1 hk
      exact ⟨hsource, htarget⟩

/-- Keeping some names, and some keys both ends of which are kept. -/
theorem restrict (p : String → Bool) (q : EdgeKey → Bool)
    (hends : ∀ k ∈ g.keys, q k = true → p k.source = true ∧ p k.target = true) :
    WellFormed { g with
      slots := (g.nodes.filter (p ·.id)).map (Slot.ofKeys (g.keys.filter q))
      edges := g.edges.filter (q ·.key) } := by
  have hids : (g.nodes.filter (p ·.id)).map Node.id = g.nodeIds.filter p := by
    unfold nodeIds
    rw [List.filter_map]
    rfl
  refine wellFormed_of_eq (g.nodes.filter (p ·.id)) (g.keys.filter q) ?_ ?_ ?_
    (h.nodup_keys.filter q) ?_ rfl
  · exact Slot.map_node_ofKeys _ _
  · unfold keys
    rw [List.filter_map]
    rfl
  · rw [hids]
    exact h.nodup_nodeIds.filter p
  · intro k hk
    rw [List.mem_filter] at hk
    rw [hids, List.mem_filter, List.mem_filter]
    have hmem := h.ends_mem k hk.1
    have hkept := hends k hk.1 hk.2
    exact ⟨⟨hmem.1, hkept.1⟩, hmem.2, hkept.2⟩

theorem removeNode (hg : g.removeNode id = .ok (n, g')) : g'.WellFormed := by
  obtain ⟨-, -, rfl⟩ := (removeNode_eq_ok_iff h).1 hg
  refine h.restrict (· ≠ id) (fun k => !k.touches id) ?_
  intro k _ hk
  simpa [EdgeKey.touches] using hk

theorem removeEdge (hg : g.removeEdge key = .ok (e, g')) : g'.WellFormed := by
  obtain ⟨-, -, rfl⟩ := (removeEdge_eq_ok_iff h).1 hg
  have hrestrict := h.restrict (fun _ => true) (· ≠ key) (by simp)
  rwa [List.filter_true] at hrestrict

/-- Changing what nodes and edges carry, but not their names and keys. -/
theorem map (name : String) (extensions : Extensions) (f : Node α → Node α) (f' : Edge β → Edge β)
    (hf : ∀ n, (f n).id = n.id) (hf' : ∀ e, (f' e).key = e.key) :
    (⟨name, extensions, g.slots.map fun s => { s with node := f s.node }, g.edges.map f'⟩ :
      Graph α β).WellFormed := by
  have hids : (g.nodes.map f).map Node.id = g.nodeIds := by simp [nodeIds, hf]
  refine wellFormed_of_eq (g.nodes.map f) g.keys (by simp [nodes]) (by simp [keys, hf'])
    (hids ▸ h.nodup_nodeIds) h.nodup_keys (hids ▸ h.ends_mem) ?_
  rw [h.slots_eq, List.map_map, List.map_map]
  refine List.map_congr_left fun n _ => ?_
  simp [Slot.ofKeys, hf]

/-- Changing what one node carries, but not its name. -/
theorem mapNode (id : String) (f : Node α → Node α) (hf : ∀ n, (f n).id = n.id) :
    (g.modifySlot id fun s => { s with node := f s.node }).WellFormed := by
  unfold modifySlot
  have hslots : (fun s : Slot α => if s.node.id = id then { s with node := f s.node } else s) =
      fun s => { s with node := if s.node.id = id then f s.node else s.node } := by
    funext s
    split <;> rfl
  rw [hslots]
  have hmap := h.map g.name g.extensions (fun n => if n.id = id then f n else n) (fun e => e)
    (fun n => by split <;> simp [hf]) fun _ => rfl
  simpa using hmap

theorem modifyData (id : String) (f : α → α) : (g.modifyData id f).WellFormed :=
  h.mapNode id (fun n => { n with data := f n.data }) fun _ => rfl

theorem modifyNodeExtensions (id : String) (f : Extensions → Extensions) :
    (g.modifyNodeExtensions id f).WellFormed :=
  h.mapNode id (fun n => { n with extensions := f n.extensions }) fun _ => rfl

theorem modifyEdgeExtensions (key : EdgeKey) (f : Extensions → Extensions) :
    (g.modifyEdgeExtensions key f).WellFormed := by
  have hmap := h.map g.name g.extensions (fun n => n)
    (fun e => if e.key = key then { e with extensions := f e.extensions } else e)
    (fun _ => rfl) fun e => by split <;> rfl
  have hslots : g.slots.map (fun s => { s with node := s.node }) = g.slots := List.map_id' _
  rw [hslots] at hmap
  exact hmap

theorem rename (name : String) : WellFormed { g with name } :=
  ⟨h.nodup_nodeIds, h.nodup_keys, h.ends_mem, h.slots_eq⟩

theorem copied : g.copied.WellFormed :=
  h.map _ _ Node.copied Edge.copied (fun _ => rfl) fun _ => rfl

end WellFormed

end Graph

end PetriNets
