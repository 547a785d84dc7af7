import PetriNets.Coverability.Exploration
import PetriNets.Proofs.Except
import PetriNets.Proofs.Table

/-!
# What an exploration does

An exploration only ever follows a transition from a node: what is fired is accelerated, and the
edge leads to the node that has this marking, be it there already or taken up now (`Followed`). So
nodes keep their markings and trails, and edges and witnesses stay (`Extends`). A property of
explorations that is kept by following a transition, by taking a node off the waiting ones and by
noting that a node is expanded holds at the end of a run (`run_invariant`).
-/

namespace PetriNets

theorem Incidence.mem_enabledArcs {inc : Incidence} {m : Marking} {t : TransitionId} {a : Arcs} :
    (t, a) ∈ inc.enabledArcs m ↔ inc.arcs.get? t = some a ∧ a.isEnabled m = true := by
  unfold enabledArcs
  rw [List.mem_filter, Table.mem_entries]

/-- The steps that lead to what a transition gives at a node. -/
def CoverNode.trailVia (node : CoverNode) (id : NodeId) (t : TransitionId) : Trail :=
  ⟨id, node.marking, t⟩ :: node.trail

namespace Exploration

variable {p : Problem} {x y z : Exploration} {id i target : NodeId} {node n : CoverNode}
  {t : TransitionId} {a : Arcs} {fired m : Marking} {trail : Trail} {rounds : Nat}

/-- A node with this marking and this trail, whatever its status. -/
def Found (x : Exploration) (id : NodeId) (m : Marking) (trail : Trail) : Prop :=
  ∃ status, x.nodes.get? id = some ⟨m, trail, status⟩

theorem found_of_get? (h : x.nodes.get? id = some n) : x.Found id n.marking n.trail := ⟨n.status, h⟩

/-- What is found stays: nodes with their markings and trails, edges and witnesses. -/
structure Extends (x y : Exploration) : Prop where
  found : ∀ {id m trail}, x.Found id m trail → y.Found id m trail
  edges : ∀ e ∈ x.edges, e ∈ y.edges
  witnesses : ∀ w ∈ x.witnesses, w ∈ y.witnesses

theorem Extends.refl (x : Exploration) : Extends x x := ⟨id, fun _ => id, fun _ => id⟩

theorem Extends.trans (h : Extends x y) (h' : Extends y z) : Extends x z :=
  ⟨fun hf => h'.found (h.found hf), fun e he => h'.edges e (h.edges e he),
    fun w hw => h'.witnesses w (h.witnesses w hw)⟩

/-! ## Following one transition -/

/-- What comes of a transition that has been fired at a node: an edge to the node of the accelerated
marking, which is known or is taken up and has to wait. -/
inductive Followed (p : Problem) (id : NodeId) (node : CoverNode) (x : Exploration) (t : TransitionId)
    (fired : Marking) : NodeId → Exploration → Prop where
  | known {target : NodeId} {n : CoverNode} (found : x.nodes.get? target = some n)
      (same : n.marking = fired.accelerate (node.trailVia id t)) :
      Followed p id node x t fired target
        { x with
          edges := x.edges.push ⟨id, target, t⟩
          witnesses := x.witnesses ++ newWitnesses p.placeName x.witnesses (node.trailVia id t) fired }
  | fresh (new : ∀ n ∈ x.nodes.toList, n.marking ≠ fired.accelerate (node.trailVia id t))
      (room : ∀ limit ∈ p.stateLimit, x.nodes.size < limit) :
      Followed p id node x t fired x.nodes.nextId
        { nodes := x.nodes.push
            ⟨fired.accelerate (node.trailVia id t), node.trailVia id t, .waiting⟩
          edges := x.edges.push ⟨id, x.nodes.nextId, t⟩
          witnesses := x.witnesses ++ newWitnesses p.placeName x.witnesses (node.trailVia id t) fired
          waiting := p.order.wait x.nodes.nextId x.waiting }

theorem find?_eq_some (h : x.find? m = some target) :
    ∃ n, x.nodes.get? target = some n ∧ n.marking = m := by
  unfold find? at h
  obtain ⟨i, hi, rfl⟩ := Option.map_eq_some_iff.1 h
  obtain ⟨hlt, hm, -⟩ := List.findIdx?_eq_some_iff_getElem.1 hi
  exact ⟨_, by rw [Table.get?_eq]; exact List.getElem?_eq_getElem hlt, of_decide_eq_true hm⟩

theorem find?_eq_none (h : x.find? m = none) : ∀ n ∈ x.nodes.toList, n.marking ≠ m := by
  unfold find? at h
  rw [Option.map_eq_none_iff, List.findIdx?_eq_none_iff] at h
  exact fun n hn => of_decide_eq_false (h n hn)

theorem followed_of_follow (h : follow p id node x (t, a) = .ok y) :
    ∃ fired target, a.fire p.capacity node.marking = .ok fired ∧
      Followed p id node x t fired target y := by
  unfold follow at h
  simp only [bind_eq_ok_iff, mapError_eq_ok_iff] at h
  obtain ⟨fired, hfire, ⟨target, z⟩, hvisit, hy⟩ := h
  refine ⟨fired, target, hfire, ?_⟩
  obtain rfl := Except.ok.inj hy
  unfold visit at hvisit
  split at hvisit
  · next id' hfind =>
    obtain ⟨rfl, rfl⟩ := Prod.mk.inj (Except.ok.inj hvisit)
    obtain ⟨n, hn, hm⟩ := find?_eq_some hfind
    exact .known hn hm
  · next hfind =>
    split at hvisit
    · cases hvisit
    · next hlimit =>
      obtain ⟨rfl, rfl⟩ := Prod.mk.inj (Except.ok.inj hvisit)
      refine .fresh (find?_eq_none hfind) fun limit hl => ?_
      have hsize := Option.filter_eq_none_iff.1 hlimit limit hl
      exact Nat.lt_of_not_le fun hle => hsize (decide_eq_true hle)

namespace Followed

variable (h : Followed p id node x t fired target y)
include h

theorem edges_eq : y.edges = x.edges.push ⟨id, target, t⟩ := by
  cases h <;> rfl

theorem witnesses_eq : y.witnesses =
    x.witnesses ++ newWitnesses p.placeName x.witnesses (node.trailVia id t) fired := by
  cases h <;> rfl

theorem get?_of_get? (hn : x.nodes.get? i = some n) : y.nodes.get? i = some n := by
  cases h with
  | known => exact hn
  | fresh => exact Table.get?_push_of_get? hn

/-- A node was there before, or it is the one that has been taken up and waits. -/
theorem get?_cases (hn : y.nodes.get? i = some n) : x.nodes.get? i = some n ∨
    i ∈ y.waiting ∧ n = ⟨fired.accelerate (node.trailVia id t), node.trailVia id t, .waiting⟩ := by
  cases h with
  | known => exact .inl hn
  | fresh =>
    rcases Table.get?_push_eq_some hn with hold | ⟨rfl, hnew⟩
    · exact .inl hold
    · refine .inr ⟨?_, hnew⟩
      cases p.order
      · exact List.mem_append_right _ List.mem_cons_self
      · exact List.mem_cons_self

theorem mem_waiting (hi : i ∈ x.waiting) : i ∈ y.waiting := by
  cases h with
  | known => exact hi
  | fresh =>
    cases p.order
    · exact List.mem_append_left _ hi
    · exact List.mem_cons_of_mem _ hi

theorem grows : Extends x y := by
  refine ⟨fun ⟨status, hn⟩ => ⟨status, h.get?_of_get? hn⟩, fun e he => ?_, fun w hw => ?_⟩
  · rw [h.edges_eq]
    exact Array.mem_push_of_mem _ he
  · rw [h.witnesses_eq]
    exact List.mem_append_left _ hw

theorem found_cases (hf : y.Found i m trail) : x.Found i m trail ∨
    i ∈ y.waiting ∧ m = fired.accelerate (node.trailVia id t) ∧ trail = node.trailVia id t := by
  obtain ⟨status, hn⟩ := hf
  rcases h.get?_cases hn with hn | ⟨hi, hn⟩
  · exact .inl ⟨status, hn⟩
  · cases hn
    exact .inr ⟨hi, rfl, rfl⟩

/-- A node that was not there before is the one that the edge leads to, and no other had its marking. -/
theorem found_cases_target (hf : y.Found i m trail) : x.Found i m trail ∨
    i = target ∧ m = fired.accelerate (node.trailVia id t) ∧ trail = node.trailVia id t ∧
      ∀ j m' trail', x.Found j m' trail' → m' ≠ m := by
  obtain ⟨status, hn⟩ := hf
  cases h with
  | known => exact .inl ⟨status, hn⟩
  | fresh new =>
    rcases Table.get?_push_eq_some hn with hold | ⟨rfl, hnew⟩
    · exact .inl ⟨status, hold⟩
    · cases hnew
      refine .inr ⟨rfl, rfl, rfl, ?_⟩
      rintro j m' trail' ⟨status', hj⟩
      exact new _ (Table.mem_toList_iff.2 ⟨j, hj⟩)

/-- As many nodes are added as have to wait. -/
theorem size_eq : y.nodes.size + x.waiting.length = x.nodes.size + y.waiting.length := by
  cases h with
  | known => rfl
  | fresh =>
    cases horder : p.order <;> simp [ExplorationOrder.wait] <;> omega

theorem size_le : x.nodes.size ≤ y.nodes.size := by
  cases h with
  | known => exact Nat.le_refl _
  | fresh =>
    rw [Table.size_push]
    exact Nat.le_succ _

/-- The edge leads to a node with the accelerated marking. -/
theorem found_target : ∃ trail, y.Found target (fired.accelerate (node.trailVia id t)) trail := by
  cases h with
  | known found same =>
    rw [← same]
    exact ⟨_, found_of_get? found⟩
  | fresh => exact ⟨_, _, Table.get?_push_nextId⟩

end Followed

/-! ## Expanding a node -/

/-- The exploration with another status for a node. -/
def setStatus (x : Exploration) (id : NodeId) (node : CoverNode) (status : NodeStatus) :
    Exploration :=
  { x with nodes := x.nodes.set id { node with status } }

variable {status : NodeStatus}

theorem found_setStatus_iff (hnode : x.nodes.get? id = some node) :
    (x.setStatus id node status).Found i m trail ↔ x.Found i m trail := by
  unfold Found setStatus
  by_cases hi : id = i
  · subst hi
    rw [hnode, Table.get?_set_self hnode]
    constructor
    · rintro ⟨_, h⟩
      cases h
      exact ⟨node.status, rfl⟩
    · rintro ⟨_, h⟩
      cases h
      exact ⟨status, rfl⟩
  · rw [Table.get?_set_of_ne hi]

theorem grows_setStatus (status : NodeStatus) (hnode : x.nodes.get? id = some node) :
    Extends x (x.setStatus id node status) :=
  ⟨(found_setStatus_iff hnode).2, fun _ he => he, fun _ hw => hw⟩

theorem expand_eq_ok_iff (hnode : x.nodes.get? id = some node) : expand p x id = .ok y ↔
    ∃ z, (p.incidence.enabledArcs node.marking).foldlM (follow p id node) x = .ok z ∧
      z.setStatus id node (.expanded ((p.incidence.enabledArcs node.marking).map Prod.fst)) = y := by
  unfold expand
  rw [hnode]
  dsimp only
  rw [bind_eq_ok_iff]
  exact exists_congr fun z => and_congr_right fun _ => ⟨Except.ok.inj, congrArg _⟩

theorem expand_of_get?_eq_none (h : x.nodes.get? id = none) : expand p x id = .ok x := by
  unfold expand
  rw [h]

/-- What following transitions of a node keeps holds when all of them have been followed. -/
theorem foldlM_follow_induction (P : List (TransitionId × Arcs) → Exploration → Prop)
    (hnode : x.nodes.get? id = some node) (nil : P [] x)
    (step : ∀ done t a fired target x y, x.nodes.get? id = some node →
      (t, a) ∈ p.incidence.enabledArcs node.marking →
      a.fire p.capacity node.marking = .ok fired → Followed p id node x t fired target y →
      P done x → P (done ++ [(t, a)]) y)
    (h : (p.incidence.enabledArcs node.marking).foldlM (follow p id node) x = .ok z) :
    z.nodes.get? id = some node ∧ P (p.incidence.enabledArcs node.marking) z := by
  refine foldlM_induction (fun done z => z.nodes.get? id = some node ∧ P done z) ⟨hnode, nil⟩ ?_ h
  rintro done ⟨t, a⟩ x y hmem ⟨hx, hP⟩ hfollow
  obtain ⟨fired, target, hfire, hstep⟩ := followed_of_follow hfollow
  exact ⟨hstep.get?_of_get? hx, step done t a fired target x y hx hmem hfire hstep hP⟩

/-! ## Whole runs -/

/-- What is kept by following transitions and by noting that a node is expanded is kept by expanding
a node. -/
theorem expand_invariant {I : Exploration → Prop}
    (follow : ∀ id node t a fired target x y, x.nodes.get? id = some node →
      (t, a) ∈ p.incidence.enabledArcs node.marking →
      a.fire p.capacity node.marking = .ok fired → Followed p id node x t fired target y → I x → I y)
    (finish : ∀ id node status x, x.nodes.get? id = some node → I x → I (x.setStatus id node status))
    (hx : I x) (h : expand p x id = .ok y) : I y := by
  cases hnode : x.nodes.get? id with
  | none =>
    rw [expand_of_get?_eq_none hnode] at h
    exact Except.ok.inj h ▸ hx
  | some node =>
    obtain ⟨z, hfold, rfl⟩ := (expand_eq_ok_iff hnode).1 h
    obtain ⟨hz, hI⟩ := foldlM_follow_induction (fun _ => I) hnode hx
      (fun _ t a fired target x y hx hmem hfire hstep => follow id node t a fired target x y hx
        hmem hfire hstep) hfold
    exact finish id node _ z hz hI

/-- What every round keeps holds at the end of a run if it holds at its beginning. -/
theorem run_rounds {I : Exploration → Prop}
    (round : ∀ x y id waiting, x.waiting = id :: waiting → expand p { x with waiting } id = .ok y →
      I x → I y)
    (hx : I x) (h : run p rounds x = .ok y) : I y := by
  induction rounds generalizing x with
  | zero => cases h
  | succ rounds ih =>
    unfold run at h
    split at h
    · exact Except.ok.inj h ▸ hx
    · next id waiting hwaiting =>
      obtain ⟨z, hexpand, hrun⟩ := bind_eq_ok_iff.1 h
      exact ih (round x z id waiting hwaiting hexpand hx) hrun

/-- What every move keeps holds at the end of a run if it holds at its beginning. -/
theorem run_invariant {I : Exploration → Prop} (pop : ∀ x waiting, I x → I { x with waiting })
    (follow : ∀ id node t a fired target x y, x.nodes.get? id = some node →
      (t, a) ∈ p.incidence.enabledArcs node.marking →
      a.fire p.capacity node.marking = .ok fired → Followed p id node x t fired target y → I x → I y)
    (finish : ∀ id node status x, x.nodes.get? id = some node → I x → I (x.setStatus id node status))
    (hx : I x) (h : run p rounds x = .ok y) : I y := by
  refine run_rounds (fun x y id waiting _ hexpand hx => ?_) hx h
  exact expand_invariant follow finish (pop x waiting hx) hexpand

/-- A property of explorations that every move keeps: taking a node off the waiting ones, following a
transition, and noting that a node is expanded. -/
structure Kept (p : Problem) (I : Exploration → Prop) : Prop where
  pop : ∀ x waiting, I x → I { x with waiting }
  follow : ∀ id node t a fired target x y, x.nodes.get? id = some node →
    (t, a) ∈ p.incidence.enabledArcs node.marking →
    a.fire p.capacity node.marking = .ok fired → Followed p id node x t fired target y → I x → I y
  finish : ∀ id node status x, x.nodes.get? id = some node → I x → I (x.setStatus id node status)

namespace Kept

variable {I J : Exploration → Prop} (hI : Kept p I)
include hI

theorem expand (hx : I x) (h : Exploration.expand p x id = .ok y) : I y :=
  expand_invariant hI.follow hI.finish hx h

theorem run (hx : I x) (h : Exploration.run p rounds x = .ok y) : I y :=
  run_invariant hI.pop hI.follow hI.finish hx h

theorem and (hJ : Kept p J) : Kept p fun x => I x ∧ J x where
  pop x waiting hx := ⟨hI.pop x waiting hx.1, hJ.pop x waiting hx.2⟩
  follow id node t a fired target x y hnode hmem hfire hstep hx :=
    ⟨hI.follow id node t a fired target x y hnode hmem hfire hstep hx.1,
      hJ.follow id node t a fired target x y hnode hmem hfire hstep hx.2⟩
  finish id node status x hnode hx :=
    ⟨hI.finish id node status x hnode hx.1, hJ.finish id node status x hnode hx.2⟩

end Kept

/-- The explorations that come about on the way, in whatever order nodes are taken off the waiting
ones. -/
inductive Arises (p : Problem) : Exploration → Prop where
  | start : Arises p (start p.initial)
  | pop (x : Exploration) (waiting : List NodeId) (earlier : Arises p x) : Arises p { x with waiting }
  | follow (id : NodeId) (node : CoverNode) (t : TransitionId) (a : Arcs) (fired : Marking)
      (target : NodeId) (x y : Exploration) (known : x.nodes.get? id = some node)
      (enabled : (t, a) ∈ p.incidence.enabledArcs node.marking)
      (fire : a.fire p.capacity node.marking = .ok fired)
      (step : Followed p id node x t fired target y) (earlier : Arises p x) : Arises p y
  | finish (id : NodeId) (node : CoverNode) (status : NodeStatus) (x : Exploration)
      (known : x.nodes.get? id = some node) (earlier : Arises p x) :
      Arises p (x.setStatus id node status)

theorem kept_arises (p : Problem) : Kept p (Arises p) := ⟨.pop, .follow, .finish⟩

theorem Arises.kept {I : Exploration → Prop} (h : Arises p x) (hI : Kept p I)
    (hstart : I (Exploration.start p.initial)) : I x := by
  induction h with
  | start => exact hstart
  | pop x waiting _ ih => exact hI.pop x waiting ih
  | follow id node t a fired target x y known enabled fire step _ ih =>
    exact hI.follow id node t a fired target x y known enabled fire step ih
  | finish id node status x known _ ih => exact hI.finish id node status x known ih

theorem waiting_of_run (h : run p rounds x = .ok y) : y.waiting = [] := by
  induction rounds generalizing x with
  | zero => cases h
  | succ rounds ih =>
    unfold run at h
    split at h
    · next hwaiting => exact Except.ok.inj h ▸ hwaiting
    · rw [bind_eq_ok_iff] at h
      obtain ⟨z, -, hrun⟩ := h
      exact ih hrun

/-- At the beginning there is one node, the root. -/
theorem found_start_iff {n : Marking} : (start m).Found i n trail ↔ i = ⟨0⟩ ∧ n = m ∧ trail = [] := by
  constructor
  · rintro ⟨status, h⟩
    rcases Table.get?_push_eq_some h with hempty | ⟨rfl, hroot⟩
    · rw [Table.get?_empty] at hempty
      cases hempty
    · cases hroot
      exact ⟨rfl, rfl, rfl⟩
  · rintro ⟨rfl, rfl, rfl⟩
    exact ⟨.waiting, Table.get?_push_nextId⟩

theorem grows_of_run (h : run p rounds x = .ok y) : Extends x y :=
  run_invariant (I := Extends x) (fun _ _ hx => ⟨hx.found, hx.edges, hx.witnesses⟩)
    (fun _ _ _ _ _ _ _ _ _ _ _ hstep hx => hx.trans hstep.grows)
    (fun _ _ status _ hnode hx => hx.trans (grows_setStatus status hnode)) (.refl x) h

end Exploration

theorem Problem.found_root {p : Problem} {x : Exploration} {rounds : Nat} (h : p.run rounds = .ok x) :
    x.Found ⟨0⟩ p.initial [] :=
  (Exploration.grows_of_run h).found (Exploration.found_start_iff.2 ⟨rfl, rfl, rfl⟩)

end PetriNets
