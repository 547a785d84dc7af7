import Mathlib.Logic.Function.Basic
import PetriNets.Proofs.Graph.WellFormed

/-!
# Graphs whose nodes carry other data

`withData` gives every node the data that is found under its name. No operation on the graph looks at
what a node is, so each of them comes to the same on the graph with the other data. Changing the data
of one node changes what is found under its name (`modifyData_withData`).
-/

namespace PetriNets

variable {α β γ : Type} {d d' : String → γ}

/-- The node with the data that is found under its name. -/
def Node.withData (d : String → γ) (n : Node α) : Node γ := ⟨n.id, d n.id, n.extensions⟩

/-- The slot of that node. -/
def Slot.withData (d : String → γ) (s : Slot α) : Slot γ :=
  ⟨s.node.withData d, s.incoming, s.outgoing⟩

namespace Graph

variable {g : Graph α β} {id : String} {key : EdgeKey}

/-- The graph with the data that is found under the names of its nodes. -/
def withData (d : String → γ) (g : Graph α β) : Graph γ β :=
  ⟨g.name, g.extensions, g.slots.map (Slot.withData d), g.edges⟩

theorem withData_congr (h : ∀ v ∈ g.nodeIds, d v = d' v) : g.withData d = g.withData d' := by
  have hslots : g.slots.map (Slot.withData d) = g.slots.map (Slot.withData d') := by
    refine List.map_congr_left fun s hs => ?_
    have hid : s.node.id ∈ g.nodeIds := mem_nodeIds.2 ⟨s.node, List.mem_map_of_mem hs, rfl⟩
    unfold Slot.withData Node.withData
    rw [h _ hid]
  unfold withData
  rw [hslots]

theorem nodes_withData : (g.withData d).nodes = g.nodes.map (Node.withData d) := by
  unfold nodes withData
  rw [List.map_map, List.map_map]
  rfl

/-! ## Looking up -/

theorem slot?_withData (id : String) :
    (g.withData d).slot? id = (g.slot? id).map (Slot.withData d) := by
  unfold slot? withData
  rw [List.find?_map]
  rfl

theorem containsNode_withData (id : String) : (g.withData d).containsNode id = g.containsNode id := by
  unfold containsNode
  rw [slot?_withData, Option.isSome_map]

theorem slot_withData (id : String) :
    (g.withData d).slot id = (g.slot id).map (Slot.withData d) := by
  unfold slot
  rw [slot?_withData]
  cases g.slot? id <;> rfl

theorem node_withData (id : String) :
    (g.withData d).node id = (g.node id).map (Node.withData d) := by
  unfold node
  rw [slot_withData]
  cases g.slot id <;> rfl

/-! ## Changing -/

/-- A node that is new has the data that belong to it if they are found under its name. -/
theorem insertNode_withData (n : Node α) {c : γ} (hc : n.id ∉ g.nodeIds → d n.id = c) :
    (g.withData d).insertNode ⟨n.id, c, n.extensions⟩ = (g.insertNode n).map (withData d) := by
  have hcontains := containsNode_withData (d := d) (g := g) n.id
  unfold insertNode
  rw [hcontains]
  cases hnew : g.containsNode n.id with
  | true => rfl
  | false =>
    have hnotMem : n.id ∉ g.nodeIds := by
      rw [← containsNode_iff, hnew]
      exact Bool.false_ne_true
    have hslots : (g.slots ++ [(⟨n, [], []⟩ : Slot α)]).map (Slot.withData d) =
        g.slots.map (Slot.withData d) ++ [⟨⟨n.id, d n.id, n.extensions⟩, [], []⟩] := List.map_append
    show Except.ok _ = Except.ok (withData d { g with slots := g.slots ++ [⟨n, [], []⟩] })
    unfold withData
    rw [hslots, hc hnotMem]

theorem modifySlot_withData (id : String) (f : Slot α → Slot α) (f' : Slot γ → Slot γ)
    (h : ∀ s, f' (s.withData d) = (f s).withData d) :
    (g.withData d).modifySlot id f' = (g.modifySlot id f).withData d := by
  have hslots : (g.slots.map (Slot.withData d)).map (fun s => if s.node.id = id then f' s else s) =
      (g.slots.map fun s => if s.node.id = id then f s else s).map (Slot.withData d) := by
    rw [List.map_map, List.map_map]
    refine List.map_congr_left fun s _ => ?_
    show (if s.node.id = id then f' (s.withData d) else s.withData d) =
      (if s.node.id = id then f s else s).withData d
    rw [h, apply_ite (Slot.withData d)]
  unfold modifySlot withData
  rw [hslots]

theorem modifyEnds_withData (key : EdgeKey) (f : List EdgeKey → List EdgeKey) :
    (g.withData d).modifyEnds key f = (g.modifyEnds key f).withData d := by
  unfold modifyEnds
  rw [modifySlot_withData key.source (fun s => { s with outgoing := f s.outgoing }) _ fun _ => rfl]
  exact modifySlot_withData key.target _ _ fun _ => rfl

theorem insertEdge_withData (e : Edge β) :
    (g.withData d).insertEdge e = (g.insertEdge e).map (withData d) := by
  unfold insertEdge
  rw [slot_withData, slot_withData]
  cases g.slot e.key.source with
  | error err => rfl
  | ok s =>
    cases g.slot e.key.target with
    | error err => rfl
    | ok t =>
      show (if g.containsEdge e.key = true then _ else _) =
        Except.map (withData d) (if g.containsEdge e.key = true then _ else _)
      cases g.containsEdge e.key with
      | true => rfl
      | false =>
        have hends := modifyEnds_withData (d := d) (g := { g with edges := g.edges ++ [e] })
          e.key e.key.addTo
        exact congrArg Except.ok hends

theorem dropEdge_withData (id : String) (key : EdgeKey) :
    dropEdge id (g.withData d) key = (dropEdge id g key).withData d := by
  have hcontains : (g.withData d).containsEdge key = g.containsEdge key := rfl
  unfold dropEdge
  rw [hcontains]
  cases g.containsEdge key with
  | false => rfl
  | true =>
    exact modifySlot_withData (g := { g with edges := g.edges.filter (·.key ≠ key) }) _
      (·.forget key) (·.forget key) fun _ => rfl

theorem foldl_dropEdge_withData (id : String) (keys : List EdgeKey) :
    keys.foldl (dropEdge id) (g.withData d) = (keys.foldl (dropEdge id) g).withData d := by
  induction keys generalizing g with
  | nil => rfl
  | cons k keys ih => rw [List.foldl_cons, List.foldl_cons, dropEdge_withData, ih]

theorem removeNode_withData (id : String) : (g.withData d).removeNode id =
    (g.removeNode id).map (Prod.map (Node.withData d) (withData d)) := by
  have hslots : (g.slots.map (Slot.withData d)).filter (·.node.id ≠ id) =
      (g.slots.filter (·.node.id ≠ id)).map (Slot.withData d) := List.filter_map
  unfold removeNode
  rw [slot_withData]
  cases g.slot id with
  | error err => rfl
  | ok s =>
    have hdrop := foldl_dropEdge_withData (d := d)
      (g := { g with slots := g.slots.filter (·.node.id ≠ id) }) id (s.incoming ++ s.outgoing)
    refine congrArg (fun h => Except.ok (s.node.withData d, h)) ?_
    refine Eq.trans ?_ hdrop
    unfold withData
    rw [← hslots]
    rfl

theorem removeEdge_withData (key : EdgeKey) : (g.withData d).removeEdge key =
    (g.removeEdge key).map (Prod.map (fun e => e) (withData d)) := by
  unfold removeEdge
  show (g.edge key >>= _) = _
  cases g.edge key with
  | error err => rfl
  | ok e =>
    have hends := modifyEnds_withData (d := d)
      (g := { g with edges := g.edges.filter (·.key ≠ key) }) key fun keys => keys.filter (· ≠ key)
    exact congrArg (fun h => Except.ok (e, h)) hends

/-- The data of one node are found under its name from then on. -/
theorem modifyData_withData (id : String) (c : γ) :
    (g.withData d).modifyData id (fun _ => c) = g.withData (Function.update d id c) := by
  have hslots : (g.slots.map (Slot.withData d)).map
      (fun s => if s.node.id = id then { s with node := { s.node with data := c } } else s) =
      g.slots.map (Slot.withData (Function.update d id c)) := by
    rw [List.map_map]
    refine List.map_congr_left fun s _ => ?_
    rw [Function.comp_apply]
    unfold Slot.withData Node.withData
    by_cases hid : s.node.id = id
    · rw [hid, Function.update_self, if_pos rfl]
    · rw [Function.update_of_ne hid, if_neg hid]
  unfold modifyData modifySlot withData
  rw [hslots]

theorem copied_withData : (g.withData d).copied = g.copied.withData d := by
  unfold copied withData
  dsimp only
  rw [List.map_map, List.map_map]
  rfl

end Graph

end PetriNets
