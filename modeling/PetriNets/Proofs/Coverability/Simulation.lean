import Mathlib.Data.List.Induction
import PetriNets.Proofs.Coverability.Acceleration
import PetriNets.Proofs.Coverability.Graph

/-!
# The graph simulates the net

At the end of an exploration every enabled transition of every node has been followed
(`closed_of_run`). A node that covers a marking enables what the marking enables, and what is fired
there covers what the marking gives; acceleration and the use of a node that is there already only
raise it further. So each firing sequence of the net is found again on a path of the graph, whose
nodes cover the markings that it passes.
-/

namespace PetriNets

namespace Exploration

variable {p : Problem} {x y z : Exploration} {id i : NodeId} {node : CoverNode} {t : TransitionId}
  {a : Arcs} {m m' : Marking} {trail : Trail} {rounds : Nat}

/-- The edge of a transition that is fired at a node. -/
def HasEdge (p : Problem) (x : Exploration) (id : NodeId) (m : Marking) (trail : Trail)
    (t : TransitionId) (a : Arcs) : Prop :=
  ∃ fired target, a.fire p.capacity m = .ok fired ∧ ⟨id, target, t⟩ ∈ x.edges ∧
    ∃ trail', x.Found target (fired.accelerate (⟨id, m, t⟩ :: trail)) trail'

/-- Every enabled transition of a node has its edge. -/
def Closed (p : Problem) (x : Exploration) (id : NodeId) (m : Marking) (trail : Trail) : Prop :=
  ∀ t a, (t, a) ∈ p.incidence.enabledArcs m → HasEdge p x id m trail t a

theorem HasEdge.mono (hxy : Extends x y) (h : HasEdge p x id m trail t a) :
    HasEdge p y id m trail t a := by
  obtain ⟨fired, target, hfire, hedge, trail', hfound⟩ := h
  exact ⟨fired, target, hfire, hxy.edges _ hedge, trail', hxy.found hfound⟩

theorem Closed.mono (hxy : Extends x y) (h : Closed p x id m trail) : Closed p y id m trail :=
  fun t a hta => (h t a hta).mono hxy

/-- Every node waits or is closed. -/
def WaitOrClosed (p : Problem) (x : Exploration) : Prop :=
  ∀ id m trail, x.Found id m trail → id ∈ x.waiting ∨ Closed p x id m trail

theorem waitOrClosed_start (m : Marking) : WaitOrClosed p (start m) := by
  intro id n trail hfound
  obtain ⟨rfl, -, -⟩ := found_start_iff.1 hfound
  exact .inl List.mem_cons_self

/-- How far the expansion of a node has come: the transitions done so far have their edges, the nodes
that came with them wait, and all else is as before. -/
structure Expanding (p : Problem) (id : NodeId) (node : CoverNode) (x : Exploration)
    (done : List (TransitionId × Arcs)) (y : Exploration) : Prop where
  grows : Extends x y
  waiting : ∀ i ∈ x.waiting, i ∈ y.waiting
  found : ∀ i m trail, y.Found i m trail → x.Found i m trail ∨ i ∈ y.waiting
  edges : ∀ t a, (t, a) ∈ done → HasEdge p y id node.marking node.trail t a

theorem Expanding.follow {done : List (TransitionId × Arcs)} {fired : Marking} {target : NodeId}
    (h : Expanding p id node x done y) (hfire : a.fire p.capacity node.marking = .ok fired)
    (hstep : Followed p id node y t fired target z) :
    Expanding p id node x (done ++ [(t, a)]) z where
  grows := h.grows.trans hstep.grows
  waiting i hi := hstep.mem_waiting (h.waiting i hi)
  found i m trail hf := by
    rcases hstep.found_cases hf with hold | ⟨hi, -⟩
    · exact (h.found i m trail hold).imp_right hstep.mem_waiting
    · exact .inr hi
  edges u b hub := by
    rcases List.mem_append.1 hub with hdone | hlast
    · exact (h.edges u b hdone).mono hstep.grows
    · obtain ⟨rfl, rfl⟩ := Prod.mk.inj (List.mem_singleton.1 hlast)
      refine ⟨fired, target, hfire, ?_, hstep.found_target⟩
      rw [hstep.edges_eq]
      exact Array.mem_push_self

/-- Expanding a node closes it; the nodes that it adds wait, and the others stay as they are. -/
theorem expanding_of_expand (hnode : x.nodes.get? id = some node) (h : expand p x id = .ok y) :
    Expanding p id node x (p.incidence.enabledArcs node.marking) y := by
  obtain ⟨z, hfold, rfl⟩ := (expand_eq_ok_iff hnode).1 h
  obtain ⟨hz, hall⟩ : z.nodes.get? id = some node ∧
      Expanding p id node x (p.incidence.enabledArcs node.marking) z :=
    foldlM_follow_induction (Expanding p id node x) hnode
      ⟨.refl x, fun _ hi => hi, fun _ _ _ hf => .inl hf, fun _ _ h => nomatch h⟩
      (fun _ _ _ _ _ _ _ _ _ hfire hstep h => h.follow hfire hstep) hfold
  have hset := grows_setStatus (.expanded ((p.incidence.enabledArcs node.marking).map Prod.fst)) hz
  exact ⟨hall.grows.trans hset, hall.waiting,
    fun i m trail hf => hall.found i m trail ((found_setStatus_iff hz).1 hf),
    fun t a hta => (hall.edges t a hta).mono hset⟩

theorem WaitOrClosed.expand {waiting : List NodeId} (hx : WaitOrClosed p x)
    (hwaiting : x.waiting = id :: waiting)
    (h : Exploration.expand p { x with waiting } id = .ok y) : WaitOrClosed p y := by
  intro i m trail hfound
  cases hnode : x.nodes.get? id with
  | none =>
    -- a name that is no node's cannot be what keeps a node waiting
    rw [expand_of_get?_eq_none (x := { x with waiting }) hnode] at h
    obtain rfl := Except.ok.inj h
    obtain ⟨status, hi⟩ := hfound
    rcases hx i m trail ⟨status, hi⟩ with hwait | hclosed
    · rw [hwaiting, List.mem_cons] at hwait
      rcases hwait with rfl | hwait
      · rw [show x.nodes.get? i = _ from hi] at hnode
        cases hnode
      · exact .inl hwait
    · exact .inr hclosed
  | some node =>
    have hall := expanding_of_expand (x := { x with waiting }) hnode h
    rcases hall.found i m trail hfound with ⟨status, hi⟩ | hi
    · rcases hx i m trail ⟨status, hi⟩ with hwait | hclosed
      · rw [hwaiting, List.mem_cons] at hwait
        rcases hwait with rfl | hwait
        · rw [show x.nodes.get? i = _ from hi] at hnode
          cases hnode
          exact .inr hall.edges
        · exact .inl (hall.waiting i hwait)
      · exact .inr (hclosed.mono hall.grows)
    · exact .inl hi

theorem WaitOrClosed.run (hx : WaitOrClosed p x) (h : Exploration.run p rounds x = .ok y) :
    WaitOrClosed p y := by
  refine run_rounds (fun x y id waiting hwaiting hexpand hx => ?_) hx h
  exact hx.expand hwaiting hexpand

end Exploration

namespace Problem

variable {p : Problem} {x : Exploration} {rounds : Nat} {id : NodeId} {t : TransitionId}
  {ts : List TransitionId} {m m' n : Marking} {trail : Trail}

theorem closed_of_run (h : p.run rounds = .ok x) (hfound : x.Found id m trail) :
    x.Closed p id m trail := by
  have hall : Exploration.WaitOrClosed p x := (Exploration.waitOrClosed_start p.initial).run h
  rcases hall id m trail hfound with hwait | hclosed
  · rw [Exploration.waiting_of_run h] at hwait
    cases hwait
  · exact hclosed

/-- What a marking does, each node that covers it does. -/
theorem exists_edge_of_step (h : p.run rounds = .ok x) (hfound : x.Found id n trail) (hle : m ≤ n)
    (hstep : p.incidence.Step none m t m') :
    ∃ target n' trail', ⟨id, target, t⟩ ∈ x.edges ∧ x.Found target n' trail' ∧ m' ≤ n' := by
  obtain ⟨a, ha, hfire⟩ := hstep
  have henabled : (t, a) ∈ p.incidence.enabledArcs n :=
    Incidence.mem_enabledArcs.2 ⟨ha, Arcs.isEnabled_of_le hle (Arcs.isEnabled_of_fire hfire)⟩
  obtain ⟨fired, target, hfire', hedge, trail', hfound'⟩ := closed_of_run h hfound t a henabled
  have hfired : m' ≤ fired := Arcs.fire_le_fire hle hfire (Arcs.fire_none_of_fire hfire')
  exact ⟨target, _, trail', hedge, hfound', hfired.trans (Marking.le_accelerate fired _)⟩

end Problem

/-! ## Paths of the graph -/

namespace CoverabilityGraph

/-- A list of nodes is a path from the initial node whose edges carry the transitions of a list. -/
structure IsPath (g : CoverabilityGraph) (ts : List TransitionId) (path : List NodeId) : Prop where
  length_eq : path.length = ts.length + 1
  head : path[0]? = some initial
  edge : ∀ i s s' t, path[i]? = some s → path[i + 1]? = some s' → ts[i]? = some t →
    ⟨s, s', t⟩ ∈ g.edges

variable {g : CoverabilityGraph} {ts : List TransitionId} {path : List NodeId} {id target : NodeId}
  {t : TransitionId}

theorem isPath_nil (g : CoverabilityGraph) : g.IsPath [] [initial] :=
  ⟨rfl, rfl, fun _ _ _ _ _ _ h => nomatch h⟩

/-- A path goes on along any edge of its last node. -/
theorem IsPath.concat (h : g.IsPath ts path) (hid : path[ts.length]? = some id)
    (hedge : ⟨id, target, t⟩ ∈ g.edges) : g.IsPath (ts ++ [t]) (path ++ [target]) where
  length_eq := by
    rw [List.length_append, List.length_append, h.length_eq]
    rfl
  head := by
    rw [List.getElem?_append_left (by rw [h.length_eq]; exact Nat.succ_pos _)]
    exact h.head
  edge i s s' u hs hs' hu := by
    rcases Nat.lt_trichotomy i ts.length with hlt | rfl | hgt
    · rw [List.getElem?_append_left (by rw [h.length_eq]; omega)] at hs hs'
      rw [List.getElem?_append_left hlt] at hu
      exact h.edge i s s' u hs hs' hu
    · rw [List.getElem?_append_left (by rw [h.length_eq]; omega), hid] at hs
      rw [← h.length_eq, List.getElem?_concat_length] at hs'
      rw [List.getElem?_concat_length] at hu
      cases hs
      cases hs'
      cases hu
      exact hedge
    · rw [List.getElem?_eq_none (by rw [List.length_append, List.length_singleton]; omega)] at hu
      cases hu

/-- The transitions of a list label a path from the initial node to this one. -/
def Leads (g : CoverabilityGraph) (ts : List TransitionId) (id : NodeId) : Prop :=
  ∃ path, g.IsPath ts path ∧ path[ts.length]? = some id

theorem leads_nil (g : CoverabilityGraph) : g.Leads [] initial := ⟨[initial], isPath_nil g, rfl⟩

theorem Leads.concat (h : g.Leads ts id) (hedge : ⟨id, target, t⟩ ∈ g.edges) :
    g.Leads (ts ++ [t]) target := by
  obtain ⟨path, hpath, hid⟩ := h
  refine ⟨path ++ [target], hpath.concat hid hedge, ?_⟩
  rw [List.length_append, List.length_singleton, ← hpath.length_eq, List.getElem?_concat_length]

/-- What holds of the initial node and is carried along the edges holds on a path, at each node with
its distance along the path. -/
theorem IsPath.induction {C : Nat → NodeId → Prop} (h : g.IsPath ts path) (start : C 0 initial)
    (step : ∀ k e, e ∈ g.edges → C k e.source → C (k + 1) e.target) {k : Nat}
    (hid : path[k]? = some id) : C k id := by
  induction k generalizing id with
  | zero =>
    rw [h.head] at hid
    exact Option.some.inj hid ▸ start
  | succ k ih =>
    have hlt : k + 1 < path.length := (List.getElem?_eq_some_iff.1 hid).1
    have hts : k < ts.length := by
      have hlength := h.length_eq
      omega
    have hsource := List.getElem?_eq_getElem (Nat.lt_of_succ_lt hlt)
    have hedge := h.edge k _ id _ hsource hid (List.getElem?_eq_getElem hts)
    exact step k _ hedge (ih hsource)

variable {net : Net} {cap : Capacity} {rounds : Nat} {config : AnalysisConfig} {m : Marking}

/-- Each firing sequence is found again on a path whose nodes cover the markings that it passes. -/
theorem exists_path_of_reaches (h : exploreWithin cap rounds config net = .ok g)
    (hts : net.Reaches ts m) : ∃ path, g.IsPath ts path ∧ ∀ i ≤ ts.length, ∃ mᵢ id n,
      net.Reaches (ts.take i) mᵢ ∧ path[i]? = some id ∧ g.nodes.get? id = some n ∧
        n.marking.covers mᵢ = true := by
  obtain ⟨x, hrun, rfl⟩ := exploreWithin_eq_ok_iff.1 h
  -- along the sequence from its end: the last marking is covered by the last node of the path
  induction ts using List.reverseRecOn generalizing m with
  | nil =>
    obtain ⟨status, hroot⟩ := Problem.found_root hrun
    refine ⟨[initial], isPath_nil _, fun i hi => ?_⟩
    obtain rfl : i = 0 := Nat.le_zero.1 hi
    exact ⟨net.initialMarking, initial, _, rfl, rfl, hroot, Marking.covers_iff.2 (le_refl _)⟩
  | append_singleton ts t ih =>
    obtain ⟨l, hl, hstep⟩ := Incidence.Run.concat_iff.1 (Net.reaches_iff.1 hts)
    obtain ⟨path, hpath, hcovers⟩ := ih (Net.reaches_iff.2 hl)
    obtain ⟨l', id, n, hl', hid, hn, hcov⟩ := hcovers ts.length (le_refl _)
    rw [List.take_length] at hl'
    obtain rfl : l' = l := Except.ok.inj (hl'.symm.trans (Net.reaches_iff.2 hl))
    obtain ⟨target, n', trail', hedge, ⟨status, hn'⟩, hle⟩ :=
      Problem.exists_edge_of_step hrun ⟨n.status, hn⟩ (Marking.covers_iff.1 hcov) hstep
    refine ⟨path ++ [target], hpath.concat hid hedge, fun i hi => ?_⟩
    rw [List.length_append, List.length_singleton] at hi
    rcases Nat.lt_or_eq_of_le hi with hlt | rfl
    · obtain ⟨mᵢ, idᵢ, nᵢ, hmᵢ, hidᵢ, hrest⟩ := hcovers i (Nat.le_of_lt_succ hlt)
      refine ⟨mᵢ, idᵢ, nᵢ, ?_, ?_, hrest⟩
      · rwa [List.take_append_of_le_length (Nat.le_of_lt_succ hlt)]
      · rwa [List.getElem?_append_left (by rw [hpath.length_eq]; exact hlt)]
    · refine ⟨m, target, _, ?_, ?_, hn', Marking.covers_iff.2 hle⟩
      · rwa [List.take_of_length_le (by rw [List.length_append, List.length_singleton])]
      · rw [← hpath.length_eq, List.getElem?_concat_length]

/-- Every reachable marking is covered by the marking of some node. -/
theorem exists_ge_of_mem_reachable (h : exploreWithin cap rounds config net = .ok g)
    (hm : m ∈ net.reachable) : ∃ n, g.HasMarking n ∧ m ≤ n := by
  obtain ⟨ts, hts⟩ := hm
  obtain ⟨path, -, hcovers⟩ := exists_path_of_reaches h hts
  obtain ⟨m', id, n, hm', -, hn, hcov⟩ := hcovers ts.length (le_refl _)
  rw [List.take_length] at hm'
  obtain rfl : m' = m := Except.ok.inj (hm'.symm.trans hts)
  exact ⟨n.marking, hasMarking_of_get? hn, Marking.covers_iff.1 hcov⟩

/-- The graph of a net simulates it: whatever sequence the net can fire labels a path from the initial
node, and after every prefix the node of the path covers the marking that the net is in. -/
theorem simulates (h : buildWithin rounds config net = .ok g) :
    (∀ ts m, net.Reaches ts m → ∃ path, g.IsPath ts path ∧ ∀ i ≤ ts.length, ∃ mᵢ id n,
      net.Reaches (ts.take i) mᵢ ∧ path[i]? = some id ∧ g.nodes.get? id = some n ∧
        n.marking.covers mᵢ = true) ∧
    ∀ m ∈ net.reachable, g.covers m = true :=
  ⟨fun _ _ hts => exists_path_of_reaches h hts,
    fun _ hm => covers_eq_true_iff.2 (exists_ge_of_mem_reachable h hm)⟩

/-- Three steps of the pump, the last of which the graph takes on an edge from a node to itself. -/
theorem simulates_pumpNet : ∃ net g, pumpNet = .ok net ∧ buildWithin 4 default net = .ok g ∧
    g.nodeCount = 3 ∧ net.Reaches [⟨0⟩, ⟨1⟩, ⟨1⟩] (.ofCounts [0, 1, 4]) ∧
    (∃ path, g.IsPath [⟨0⟩, ⟨1⟩, ⟨1⟩] path) ∧ g.covers (.ofCounts [0, 1, 4]) = true := by
  have hpump : ∃ net g, pumpNet = .ok net ∧ buildWithin 4 default net = .ok g ∧
      g.nodeCount = 3 ∧ net.Reaches [⟨0⟩, ⟨1⟩, ⟨1⟩] (.ofCounts [0, 1, 4]) :=
    ⟨_, _, rfl, rfl, rfl, rfl⟩
  obtain ⟨net, g, hnet, hg, hcount, hts⟩ := hpump
  obtain ⟨hpaths, hcovers⟩ := simulates hg
  obtain ⟨path, hpath, -⟩ := hpaths _ _ hts
  exact ⟨net, g, hnet, hg, hcount, hts, ⟨path, hpath⟩, hcovers _ ⟨_, hts⟩⟩

end CoverabilityGraph

end PetriNets
