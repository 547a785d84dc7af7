import Mathlib.Order.Bounds.Basic
import PetriNets.Proofs.Coverability.Structure

/-!
# Breadth-first graphs

Breadth first, the node that is expanded is the one that has waited longest, so nodes are found level by
level: while a node at some depth of the tree is expanded, no node lies more than one level deeper, and
the nodes that wait come in the order of their numbers and of their depths (`Exploration.Levelled`). An
edge is therefore never more than one level long, also one that is added to a node found long before,
and no path from the initial node is shorter than the way down the tree.
-/

namespace PetriNets

namespace Exploration

variable {p : Problem} {x y z : Exploration} {id i j target : NodeId} {node : CoverNode}
  {t : TransitionId} {fired m m' : Marking} {trail trail' : Trail} {depth rounds : Nat}
  {waiting : List NodeId}

/-- Where a breadth-first exploration stands while nodes at this depth are expanded. -/
structure Levelled (depth : Nat) (x : Exploration) : Prop where
  ordered : x.waiting.Pairwise fun i j => i.index < j.index
  found : ∀ i ∈ x.waiting, ∃ m trail, x.Found i m trail ∧ depth ≤ trail.length
  length_le : ∀ {i m trail}, x.Found i m trail → trail.length ≤ depth + 1
  ascending : ∀ {i j m m' trail trail'}, x.Found i m trail → x.Found j m' trail' →
    i.index ≤ j.index → trail.length ≤ trail'.length
  edges : ∀ e ∈ x.edges, ∃ m m' trail trail', x.Found e.source m trail ∧
    x.Found e.target m' trail' ∧ trail'.length ≤ trail.length + 1

theorem levelled_start (m : Marking) : Levelled 0 (start m) where
  ordered := List.pairwise_singleton _ _
  found i hi := by
    obtain rfl := List.mem_singleton.1 hi
    exact ⟨m, [], found_start_iff.2 ⟨rfl, rfl, rfl⟩, Nat.le_refl 0⟩
  length_le hi := by
    obtain ⟨-, -, rfl⟩ := found_start_iff.1 hi
    exact Nat.zero_le _
  ascending hi _ _ := by
    obtain ⟨-, -, rfl⟩ := found_start_iff.1 hi
    exact Nat.zero_le _
  edges e he := absurd he (Array.not_mem_empty e)

/-- Following a transition of the node that is expanded finds no node but one on the next level. -/
theorem Levelled.follow (hx : Levelled node.trail.length x) (horder : p.order = .breadthFirst)
    (hnode : x.nodes.get? id = some node) (hstep : Followed p id node x t fired target y) :
    Levelled node.trail.length y := by
  have hlevel : (node.trailVia id t).length = node.trail.length + 1 := rfl
  have hlength : ∀ {i m trail}, y.Found i m trail → trail.length ≤ node.trail.length + 1 := by
    intro i m trail hi
    rcases hstep.found_cases_target hi with hold | ⟨-, -, rfl, -⟩
    · exact hx.length_le hold
    · exact hlevel.le
  constructor
  case ordered =>
    cases hstep with
    | known => exact hx.ordered
    | fresh =>
      rw [horder]
      show (x.waiting ++ [x.nodes.nextId]).Pairwise _
      rw [List.pairwise_append]
      refine ⟨hx.ordered, List.pairwise_singleton _ _, ?_⟩
      intro i hi j hj
      obtain rfl := List.mem_singleton.1 hj
      obtain ⟨m, trail, ⟨status, hfound⟩, -⟩ := hx.found i hi
      exact Table.index_lt_of_get? hfound
  case found =>
    have hold : ∀ i ∈ x.waiting, ∃ m trail, y.Found i m trail ∧ node.trail.length ≤ trail.length := by
      intro i hi
      obtain ⟨m, trail, hfound, hle⟩ := hx.found i hi
      exact ⟨m, trail, hstep.grows.found hfound, hle⟩
    cases hstep with
    | known => exact hold
    | fresh =>
      rw [horder]
      intro i hi
      rcases List.mem_append.1 hi with hi | hi
      · exact hold i hi
      · obtain rfl := List.mem_singleton.1 hi
        refine ⟨_, _, ⟨_, Table.get?_push_nextId⟩, ?_⟩
        omega
  case length_le => exact hlength
  case ascending =>
    intro i j m m' trail trail' hi hj hij
    rcases hstep.found_cases_target hi with hiold | ⟨-, -, -, hinew⟩
    · rcases hstep.found_cases_target hj with hjold | ⟨-, -, rfl, -⟩
      · exact hx.ascending hiold hjold hij
      · have hle := hx.length_le hiold
        omega
    · rcases hstep.found_cases_target hj with ⟨status, hjold⟩ | ⟨-, -, rfl, -⟩
      · have hlt := hstep.index_lt hi (fun trail hold => hinew i m trail hold rfl) hjold
        omega
      · exact hlength hi
  case edges =>
    intro e he
    rw [hstep.edges_eq, Array.mem_push] at he
    rcases he with he | rfl
    · obtain ⟨m, m', trail, trail', hsource, htarget, hle⟩ := hx.edges e he
      exact ⟨m, m', trail, trail', hstep.grows.found hsource, hstep.grows.found htarget, hle⟩
    · obtain ⟨trail', htarget⟩ := hstep.found_target
      exact ⟨_, _, _, trail', hstep.grows.found (found_of_get? hnode), htarget, hlength htarget⟩

theorem Levelled.setStatus {status : NodeStatus} (hx : Levelled depth x)
    (hnode : x.nodes.get? id = some node) : Levelled depth (x.setStatus id node status) := by
  have hfound : ∀ {i m trail}, (x.setStatus id node status).Found i m trail ↔ x.Found i m trail :=
    found_setStatus_iff hnode
  refine ⟨hx.ordered, ?_, ?_, ?_, ?_⟩
  · simp only [hfound]
    exact hx.found
  · intro i m trail hi
    exact hx.length_le (hfound.1 hi)
  · intro i j m m' trail trail' hi hj hij
    exact hx.ascending (hfound.1 hi) (hfound.1 hj) hij
  · simp only [hfound]
    exact hx.edges

/-- The node that is next has the least depth of all that wait. -/
theorem Levelled.pop (hx : Levelled depth x) (hwaiting : x.waiting = id :: waiting)
    (hnode : x.nodes.get? id = some node) : Levelled node.trail.length { x with waiting } := by
  have hordered := hx.ordered
  rw [hwaiting, List.pairwise_cons] at hordered
  have hdepth : depth ≤ node.trail.length := by
    obtain ⟨m, trail, hfound, hle⟩ := hx.found id (by simp [hwaiting])
    rwa [(hfound.unique (found_of_get? hnode)).2] at hle
  refine ⟨hordered.2, ?_, ?_, hx.ascending, hx.edges⟩
  · intro i hi
    obtain ⟨m, trail, hfound, -⟩ := hx.found i (by simp [hwaiting, hi])
    have hlt := hordered.1 i hi
    exact ⟨m, trail, hfound, hx.ascending (found_of_get? hnode) hfound hlt.le⟩
  · intro i m trail hi
    have hle := hx.length_le hi
    omega

theorem Levelled.expand (hx : Levelled depth x) (horder : p.order = .breadthFirst)
    (hwaiting : x.waiting = id :: waiting)
    (h : Exploration.expand p { x with waiting } id = .ok y) : ∃ depth', Levelled depth' y := by
  obtain ⟨m, trail, ⟨status, hnode⟩, -⟩ := hx.found id (by simp [hwaiting])
  obtain ⟨z, hfold, rfl⟩ := (expand_eq_ok_iff (x := { x with waiting }) hnode).1 h
  obtain ⟨hz, hlevelled⟩ := foldlM_follow_induction (x := { x with waiting })
    (fun _ => Levelled trail.length) hnode (hx.pop hwaiting hnode)
    (fun _ _ _ _ _ _ _ hnode _ _ hstep hx => hx.follow horder hnode hstep) hfold
  exact ⟨trail.length, hlevelled.setStatus hz⟩

theorem levelled_of_run (horder : p.order = .breadthFirst) (h : p.run rounds = .ok x) :
    ∃ depth, Levelled depth x := by
  refine run_rounds (I := fun x => ∃ depth, Levelled depth x) ?_ ⟨0, levelled_start p.initial⟩ h
  rintro x y id waiting hwaiting hexpand ⟨depth, hx⟩
  exact hx.expand horder hwaiting hexpand

end Exploration

namespace CoverabilityGraph

variable {net : Net} {cap : Capacity} {rounds : Nat} {config : AnalysisConfig}
  {g : CoverabilityGraph} {i j : NodeId} {n : CoverNode} {ts : List TransitionId} {k l : Nat}

/-- A node is so far from the initial one: this is the length of a shortest path. -/
def IsDistance (g : CoverabilityGraph) (i : NodeId) (k : Nat) : Prop :=
  IsLeast (List.length '' {ts | g.Leads ts i}) k

theorem length_firingSequence (hi : g.nodes.get? i = some n) :
    (g.firingSequence i).length = n.trail.length := by
  rw [firingSequence_of_get? hi, Trail.transitions, List.length_reverse, List.length_map]

/-- The way down the tree is a path of the graph. -/
theorem leads_firingSequence (h : exploreWithin cap rounds config net = .ok g)
    (hi : g.nodes.get? i = some n) : g.Leads (g.firingSequence i) i := by
  rw [firingSequence_of_get? hi]
  -- along the trail from its end, the initial node
  generalize htrail : n.trail = trail
  induction trail generalizing i n with
  | nil =>
    by_cases hne : i = initial
    · subst hne
      exact leads_nil g
    · obtain ⟨j, t, m, -, -, -, -, hn⟩ := exists_parent h hi hne
      rw [htrail] at hn
      cases hn
  | cons s trail ih =>
    by_cases hne : i = initial
    · obtain ⟨x, hrun, rfl⟩ := exploreWithin_eq_ok_iff.1 h
      obtain ⟨status, hroot⟩ := Problem.found_root hrun
      subst hne
      obtain rfl := Option.some.inj (hi.symm.trans hroot)
      cases htrail
    · obtain ⟨j, t, m, -, -, hm, hedge, hn⟩ := exists_parent h hi hne
      rw [htrail] at hn
      obtain ⟨rfl, rfl⟩ := List.cons.inj hn
      rw [Problem.transitions_cons]
      exact (ih hm rfl).concat hedge

section BreadthFirst

variable (h : exploreWithin cap rounds config net = .ok g)
  (horder : config.explorationOrder = .breadthFirst)
include h horder

/-- No path from the initial node is shorter than the way down the tree. -/
theorem length_firingSequence_le (hleads : g.Leads ts i) :
    (g.firingSequence i).length ≤ ts.length := by
  obtain ⟨x, hrun, rfl⟩ := exploreWithin_eq_ok_iff.1 h
  obtain ⟨depth, hx⟩ := Exploration.levelled_of_run horder hrun
  obtain ⟨path, hpath, hend⟩ := hleads
  obtain ⟨m, trail, ⟨status, hfound⟩, hle⟩ : ∃ m trail, x.Found i m trail ∧
      trail.length ≤ ts.length := by
    refine hpath.induction (C := fun k i => ∃ m trail, x.Found i m trail ∧ trail.length ≤ k)
      ⟨_, _, Problem.found_root hrun, Nat.le_refl 0⟩ ?_ hend
    rintro k e he ⟨m, trail, hfound, hle⟩
    obtain ⟨l, l', trail₁, trail₂, hsource, htarget, hstep⟩ := hx.edges e he
    obtain ⟨-, rfl⟩ := hfound.unique hsource
    exact ⟨l', trail₂, htarget, by omega⟩
  rwa [length_firingSequence hfound]

theorem isDistance_firingSequence (hi : g.nodes.get? i = some n) :
    g.IsDistance i (g.firingSequence i).length := by
  refine ⟨⟨_, leads_firingSequence h hi, rfl⟩, ?_⟩
  rintro _ ⟨ts, hts, rfl⟩
  exact length_firingSequence_le h horder hts

/-- Only nodes are at a distance from the initial one. -/
theorem exists_node_of_isDistance (hi : g.IsDistance i k) :
    ∃ n, g.nodes.get? i = some n ∧ n.trail.length = k := by
  obtain ⟨⟨ts, ⟨path, hpath, hend⟩, -⟩, -⟩ := id hi
  obtain ⟨n, hn⟩ : ∃ n, g.nodes.get? i = some n := by
    refine hpath.induction (C := fun _ i => ∃ n, g.nodes.get? i = some n) ?_ ?_ hend
    · obtain ⟨n, hn, -⟩ := exists_root h
      exact ⟨n, hn⟩
    · rintro k ⟨s, s', t⟩ he -
      obtain ⟨-, n, -, hn⟩ := exists_ends_of_mem_edges h he
      exact ⟨n, hn⟩
  refine ⟨n, hn, ?_⟩
  rw [← length_firingSequence hn]
  exact (isDistance_firingSequence h horder hn).unique hi

/-- Nodes are numbered in the order of their distances. -/
theorem distance_le_distance (hi : g.IsDistance i k) (hj : g.IsDistance j l)
    (hij : i.index ≤ j.index) : k ≤ l := by
  obtain ⟨n, hn, rfl⟩ := exists_node_of_isDistance h horder hi
  obtain ⟨n', hn', rfl⟩ := exists_node_of_isDistance h horder hj
  obtain ⟨x, hrun, rfl⟩ := exploreWithin_eq_ok_iff.1 h
  obtain ⟨depth, hx⟩ := Exploration.levelled_of_run horder hrun
  exact hx.ascending (Exploration.found_of_get? hn) (Exploration.found_of_get? hn') hij

end BreadthFirst

/-- In a breadth-first graph the way down the tree to a node is a shortest path, and nodes are numbered
in the order of their distances from the initial one. Without `ω` it is a shortest firing sequence that
reaches the marking of the node, even among those that leave more on some place than a word can count. -/
theorem firingSequence_shortest (h : buildWithin rounds config net = .ok g)
    (horder : config.explorationOrder = .breadthFirst) :
    (∀ i n, g.nodes.get? i = some n →
      g.Leads (g.firingSequence i) i ∧ g.IsDistance i (g.firingSequence i).length) ∧
    (∀ i j k l, g.IsDistance i k → g.IsDistance j l → i.index ≤ j.index → k ≤ l) ∧
    (g.hasOmega = false → ∀ i n, g.nodes.get? i = some n →
      net.fireSequence net.initialMarking ((g.firingSequence i).map .number) = .ok n.marking ∧
      ∀ ts, net.Reaches ts n.marking → (g.firingSequence i).length ≤ ts.length) := by
  refine ⟨?_, ?_, ?_⟩
  · intro i n hi
    exact ⟨leads_firingSequence h hi, isDistance_firingSequence h horder hi⟩
  · intro i j k l hi hj hij
    exact distance_le_distance h horder hi hj hij
  · intro homega i n hi
    refine ⟨fireSequence_firingSequence h homega hi, ?_⟩
    intro ts hts
    obtain ⟨j, n', hj, hmarking, hleads⟩ := exists_node_of_reaches h homega hts
    obtain rfl := id_eq_of_marking_eq h hi hj hmarking.symm
    exact length_firingSequence_le h horder hleads

/-- Two ways to a goal: over a bridge, or over a hill and through a valley behind it. -/
def detourNet : Net := .ofScript "detour" [.addPlace ⟨"start", 1, ∅⟩, .createPlace "bridge",
  .createPlace "hill", .createPlace "valley", .createPlace "goal", .createTransition "toBridge",
  .createTransition "toHill", .createTransition "cross", .createTransition "descend",
  .createTransition "wade", .createFlow "start" "toBridge" 1, .createFlow "toBridge" "bridge" 1,
  .createFlow "start" "toHill" 1, .createFlow "toHill" "hill" 1, .createFlow "bridge" "cross" 1,
  .createFlow "cross" "goal" 1, .createFlow "hill" "descend" 1, .createFlow "descend" "valley" 1,
  .createFlow "valley" "wade" 1, .createFlow "wade" "goal" 1]

/-- The goal is found over the bridge, and the other way is not shorter. -/
theorem firingSequence_shortest_detourNet : ∃ g n, buildWithin 6 default detourNet = .ok g ∧
    g.nodes.get? ⟨3⟩ = some n ∧ n.marking = .ofCounts [0, 0, 0, 0, 1] ∧
    detourNet.Reaches [⟨1⟩, ⟨3⟩, ⟨4⟩] n.marking ∧ g.firingSequence ⟨3⟩ = [⟨0⟩, ⟨2⟩] ∧
    g.IsDistance ⟨3⟩ 2 ∧ ∀ ts, detourNet.Reaches ts n.marking → 2 ≤ ts.length := by
  have hdetour : ∃ g n, buildWithin 6 default detourNet = .ok g ∧ g.nodes.get? ⟨3⟩ = some n ∧
      n.marking = .ofCounts [0, 0, 0, 0, 1] ∧ detourNet.Reaches [⟨1⟩, ⟨3⟩, ⟨4⟩] n.marking ∧
      g.firingSequence ⟨3⟩ = [⟨0⟩, ⟨2⟩] ∧ g.hasOmega = false :=
    ⟨_, _, rfl, rfl, rfl, rfl, rfl, rfl⟩
  obtain ⟨g, n, hg, hn, hgoal, hhill, hbridge, homega⟩ := hdetour
  have horder : (default : AnalysisConfig).explorationOrder = .breadthFirst := rfl
  obtain ⟨hpaths, -, hfinite⟩ := firingSequence_shortest hg horder
  have hdistance := (hpaths _ n hn).2
  have hleast := (hfinite homega _ n hn).2
  rw [hbridge] at hdistance hleast
  exact ⟨g, n, hg, hn, hgoal, hhill, hbridge, hdistance, hleast⟩

end CoverabilityGraph

end PetriNets
