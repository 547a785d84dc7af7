import PetriNets.Proofs.Action
import PetriNets.Proofs.Graph.WithData
import PetriNets.Proofs.TransitionSystem.Built
import PetriNets.TransitionSystem.Flagged

/-!
# Flags and the name of the initial state

The flags that belong to a system are read off the name of its initial state (`TransitionSystem.flagged`),
and a call on a system with flags comes to what the same call on the system comes to
(`onFlagged_flagged`). A call that is refused leaves the flags, the name and the number of the next fresh
name as they are: the search for a fresh name, which goes on even if it comes to nothing, always finds
one (`stateName_nextFresh_notMem`).
-/

namespace PetriNets

/-- The search is long enough if it does not end at a number in use. -/
theorem used_of_used_firstFree (used : Nat → Bool) (fuel n : Nat)
    (h : used (firstFree used fuel n) = true) : ∀ i ≤ fuel, used (n + i) = true := by
  induction fuel generalizing n with
  | zero =>
    intro i hi
    obtain rfl := Nat.le_zero.1 hi
    exact h
  | succ fuel ih =>
    unfold firstFree at h
    split at h
    · next hn =>
      intro i hi
      cases i with
      | zero => exact hn
      | succ i =>
        rw [Nat.add_comm i, ← Nat.add_assoc]
        exact ih (n + 1) h i (Nat.le_of_succ_le_succ hi)
    · next hn => exact absurd h hn

namespace TransitionSystem

variable {ts ts' : TransitionSystem} {id : String}

theorem stateName_nextFresh_notMem (ts : TransitionSystem) :
    stateName ts.nextFresh ∉ ts.stateIds := by
  intro hmem
  have hall := used_of_used_firstFree (fun n => ts.containsState (stateName n)) ts.stateCount ts.fresh
    (Graph.containsNode_iff.2 hmem)
  -- all of these names, of which there are more than states, would be in use
  let names := (List.range (ts.stateCount + 1)).map fun i => stateName (ts.fresh + i)
  have hnodup : names.Nodup :=
    List.nodup_range.map (stateName_injective.comp fun _ _ => Nat.add_left_cancel)
  have hsub : names ⊆ ts.stateIds := by
    intro v hv
    obtain ⟨i, hi, rfl⟩ := List.mem_map.1 hv
    exact Graph.containsNode_iff.1 (hall i (Nat.le_of_lt_succ (List.mem_range.1 hi)))
  have hle : names.length ≤ ts.stateIds.length := (hnodup.subperm hsub).length_le
  rw [List.length_map, List.length_range, length_stateIds] at hle
  omega

/-- Whether a name is that of the initial state. -/
def marks (ts : TransitionSystem) (v : String) : Bool := ts.initial = some v

/-- The system with the flags that go with the name of its initial state. -/
def flagged (ts : TransitionSystem) : FlaggedSystem :=
  ⟨ts.graph.withData ts.marks, ts.initial, ts.fresh⟩

/-- The initial state is one of the states, so no other name has a flag. -/
theorem WellFormed.marks_of_notMem (h : ts.WellFormed) (hid : id ∉ ts.stateIds) :
    ts.marks id = false := by
  refine decide_eq_false fun hinitial => hid ?_
  exact h.initial_mem id hinitial

end TransitionSystem

namespace FlaggedSystem

open TransitionSystem

variable {α : Type} {ts : TransitionSystem} {id v : String} {d : String → Bool}
  {g : Graph Unit Unit} {initial : Option String} {fresh : Nat} {flag : Bool}

/-! ## Single calls -/

/-- A change of the graph that takes no note of the flags. -/
theorem changeGraph_flagged {f : Graph Bool Unit → Except GraphError (α × Graph Bool Unit)}
    {r : Except GraphError (α × Graph Unit Unit)}
    (h : f ts.flagged.graph = r.map (Prod.map (fun a => a) (Graph.withData ts.marks))) :
    changeGraph f ts.flagged = outcome flagged ts (r.map fun p => (p.1, { ts with graph := p.2 })) := by
  unfold changeGraph
  rw [h]
  cases r <;> rfl

/-- A state that is new has no flag. -/
theorem addState_flagged (h : ts.WellFormed) (id : String) :
    addState ⟨id, false, ∅⟩ ts.flagged = outcome flagged ts
      ((ts.addState ⟨id, (), ∅⟩).map fun next => (next.flag ⟨id, (), ∅⟩, next)) := by
  have hinsert : ts.flagged.graph.insertNode ⟨id, false, ∅⟩ =
      (ts.graph.insertNode ⟨id, (), ∅⟩).map (Graph.withData ts.marks) :=
    Graph.insertNode_withData (⟨id, (), ∅⟩ : State) h.marks_of_notMem
  let s : FlaggedState := ⟨id, false, ∅⟩
  refine (changeGraph_flagged (f := fun g => return (s, ← g.insertNode s))
    (r := (ts.graph.insertNode ⟨id, (), ∅⟩).map (s, ·)) ?_).trans ?_
  · rw [hinsert]
    cases ts.graph.insertNode ⟨id, (), ∅⟩ <;> rfl
  · unfold TransitionSystem.addState
    cases hg : ts.graph.insertNode ⟨id, (), ∅⟩ with
    | error e => rfl
    | ok g =>
      have hmarks : ts.marks id = false := h.marks_of_notMem (Graph.insertNode_eq_ok_iff.1 hg).1
      show EStateM.Result.ok s _ = .ok ⟨id, ts.marks id, ∅⟩ _
      rw [hmarks]

theorem createState_flagged (h : ts.WellFormed) (id : Option String) :
    createState id ts.flagged = outcome flagged ts
      ((ts.createState id).map fun r => (r.2.flag ⟨r.1, (), ∅⟩, r.2)) := by
  cases id with
  | some id =>
    have hcreate : ts.createState (some id) = (ts.addState ⟨id, (), ∅⟩).map (id, ·) := by
      show (ts.addState ⟨id, (), ∅⟩ >>= _) = _
      cases ts.addState ⟨id, (), ∅⟩ <;> rfl
    rw [hcreate]
    refine (addState_flagged h id).trans ?_
    cases ts.addState ⟨id, (), ∅⟩ <;> rfl
  | none =>
    -- the search leaves the same states behind with another number, and cannot be for nothing
    let later : TransitionSystem := { ts with fresh := ts.nextFresh + 1 }
    let s : State := ⟨stateName ts.nextFresh, (), ∅⟩
    have hlater : later.WellFormed := ⟨h.graph, h.labelled, h.initial_mem⟩
    have hsearch : freshName ts.flagged = .ok (stateName ts.nextFresh) later.flagged := by
      have hused : (fun n => ts.flagged.graph.containsNode (stateName n)) =
          fun n => ts.containsState (stateName n) :=
        funext fun n => Graph.containsNode_withData _
      have hlength : ts.flagged.states.length = ts.stateCount := by
        show (Graph.withData ts.marks ts.graph).nodes.length = _
        rw [Graph.nodes_withData, List.length_map]
        rfl
      show EStateM.Result.ok (stateName (firstFree _ _ _)) _ = _
      rw [hused, hlength]
      rfl
    obtain ⟨next, hadd⟩ : ∃ next, later.addState s = .ok next :=
      ⟨_, congrArg (Functor.map _) (Graph.insertNode_eq_ok_iff.2
        ⟨ts.stateName_nextFresh_notMem, rfl⟩)⟩
    have hcreate : ts.createState none = .ok (stateName ts.nextFresh, next) :=
      congrArg (Functor.map _) hadd
    refine (bind_of_ok hsearch).trans ((addState_flagged hlater _).trans ?_)
    rw [hadd, hcreate]
    rfl

theorem createArc_flagged (ts : TransitionSystem) (source target label : String) :
    createArc source target label ts.flagged = outcome flagged ts
      ((ts.createArc source target label).map (.between source target label, ·)) := by
  let a := Arc.between source target label
  have hinsert : ts.flagged.graph.insertEdge a =
      (ts.graph.insertEdge a).map (Graph.withData ts.marks) := Graph.insertEdge_withData a
  refine (changeGraph_flagged (f := fun g => return (a, ← g.insertEdge a))
    (r := (ts.graph.insertEdge a).map (a, ·)) ?_).trans ?_
  · rw [hinsert]
    cases ts.graph.insertEdge a <;> rfl
  · unfold TransitionSystem.createArc TransitionSystem.addArc
    cases ts.graph.insertEdge a <;> rfl

theorem removeArc_flagged (ts : TransitionSystem) (source target label : String) :
    removeArc source target label ts.flagged =
      outcome flagged ts (ts.removeArc source target label) := by
  refine (changeGraph_flagged (Graph.removeEdge_withData _)).trans ?_
  unfold TransitionSystem.removeArc
  cases ts.graph.removeEdge ⟨source, target, some label⟩ <;> rfl

/-- The state that is taken out keeps its flag, and no other state had it. -/
theorem removeState_flagged (h : ts.WellFormed) (id : String) :
    removeState id ts.flagged = outcome flagged ts ((ts.removeState id).map fun r => (ts.flag r.1, r.2)) := by
  have hchange := changeGraph_flagged (f := fun g => g.removeNode id)
    (r := (ts.graph.removeNode id).map (Prod.map (Node.withData ts.marks) fun g => g)) (by
      refine (Graph.removeNode_withData id).trans ?_
      cases ts.graph.removeNode id <;> rfl)
  cases hremove : ts.graph.removeNode id with
  | error e =>
    rw [hremove] at hchange
    refine (bind_of_error hchange).trans ?_
    unfold TransitionSystem.removeState
    rw [hremove]
    rfl
  | ok r =>
    obtain ⟨n, g⟩ := r
    rw [hremove] at hchange
    refine (bind_of_ok hchange).trans ?_
    unfold TransitionSystem.removeState
    rw [hremove]
    have hgone : ∀ v ∈ g.nodeIds, v ≠ id := by
      intro v hv
      obtain ⟨m, hm, rfl⟩ := Graph.mem_nodeIds.1 hv
      rw [(h.graph.lists_removeNode hremove).2.1] at hm
      exact of_decide_eq_true (List.mem_filter.1 hm).2
    let next : TransitionSystem :=
      { ts with graph := g, initial := if ts.initial = some id then none else ts.initial }
    have hflags : g.withData ts.marks = g.withData next.marks := by
      refine Graph.withData_congr fun v hv => ?_
      have hne := hgone v hv
      show decide (ts.initial = some v) = decide ((if ts.initial = some id then none else _) = some v)
      split
      · next hid => simp [hid, hne.symm]
      · rfl
    show EStateM.Result.ok _ (FlaggedSystem.mk (g.withData ts.marks) next.initial ts.fresh) = _
    rw [hflags]
    rfl

/-! ## The initial state -/

theorem setFlag_of_mem (hid : id ∈ g.nodeIds) :
    setFlag id flag ⟨g.withData d, initial, fresh⟩ =
      .ok () ⟨g.withData (Function.update d id flag), initial, fresh⟩ := by
  obtain ⟨s, hs⟩ := Graph.exists_slot_iff.2 hid
  have hnode : (g.withData d).node id = .ok (s.node.withData d) := by
    rw [Graph.node_withData]
    unfold Graph.node
    rw [hs]
    rfl
  rw [← Graph.modifyData_withData]
  unfold setFlag changeGraph
  dsimp only
  rw [hnode]
  rfl

theorem setFlag_of_notMem (hid : id ∉ g.nodeIds) :
    setFlag id flag ⟨g.withData d, initial, fresh⟩ =
      .error (.nodeNotFound id) ⟨g.withData d, initial, fresh⟩ := by
  have hnode : (g.withData d).node id = .error (.nodeNotFound id) := by
    rw [Graph.node_withData]
    unfold Graph.node
    rw [Graph.slot_eq_error_iff.2 ⟨hid, rfl⟩]
    rfl
  unfold setFlag changeGraph
  dsimp only
  rw [hnode]
  rfl

/-- The flag of the state whose name was noted before is lowered, so that one flag is left. -/
theorem lowerPrevious_of_mem (hinitial : ∀ v, initial = some v → v ∈ g.nodeIds)
    (hd : ∀ v, d v = decide (initial = some v)) :
    lowerPrevious id initial ⟨g.withData (Function.update d id true), some id, fresh⟩ =
      .ok () ⟨g.withData fun v => decide (some id = some v), some id, fresh⟩ := by
  have hflags : ∀ d' : String → Bool, (∀ v, d' v = true ↔ v = id) →
      g.withData d' = g.withData fun v => decide (some id = some v) := by
    intro d' h
    refine Graph.withData_congr fun v _ => Bool.eq_iff_iff.2 ?_
    rw [h, decide_eq_true_eq, Option.some.injEq, eq_comm]
  cases initial with
  | none =>
    have hone := hflags (Function.update d id true) fun v => by
      by_cases hv : v = id <;> simp [hv, hd]
    rw [hone]
    rfl
  | some w =>
    unfold lowerPrevious
    dsimp only
    split
    · next hw =>
      have hone := hflags (Function.update d id true) fun v => by
        by_cases hv : v = id
        · simp [hv]
        · simp [hv, hd, hw, Ne.symm hv]
      rw [hone]
      rfl
    · next hw =>
      have hone := hflags (Function.update (Function.update d id true) w false) fun v => by
        by_cases hv : v = w
        · simp [hv, hw]
        · rw [Function.update_of_ne hv]
          by_cases hv' : v = id
          · simp [hv']
          · simp [hv', hd, Ne.symm hv]
      unfold lowerFlag
      rw [setFlag_of_mem (hinitial w rfl), hone]

theorem setInitialState_flagged (h : ts.WellFormed) (id : String) :
    setInitialState id ts.flagged = outcome flagged ts ((ts.setInitialState id).map ((), ·)) := by
  by_cases hid : id ∈ ts.stateIds
  · rw [h.setInitialState_of_mem hid]
    refine (bind_of_ok (setFlag_of_mem hid)).trans ?_
    exact lowerPrevious_of_mem h.initial_mem fun _ => rfl
  · have hno : ts.setInitialState id = .error (.nodeNotFound id) := by
      unfold TransitionSystem.setInitialState Graph.node
      rw [Graph.slot_eq_error_iff.2 ⟨hid, rfl⟩]
      rfl
    rw [hno]
    exact bind_of_error (setFlag_of_notMem hid)

end FlaggedSystem

namespace SystemCall

open TransitionSystem

variable {ts ts' : TransitionSystem} {c : SystemCall} {a : SystemAnswer}

/-- A call on the flags that belong to a system comes to what the call on the system comes to, and
leaves the flags behind that belong to what it leaves behind. -/
theorem onFlagged_flagged (h : ts.WellFormed) (c : SystemCall) :
    c.onFlagged ts.flagged = outcome flagged ts (c.onSystem ts) := by
  cases c with
  | createState id =>
    refine (map_outcome _ (FlaggedSystem.createState_flagged h id)).trans ?_
    show _ = outcome flagged ts ((ts.createState id).map _)
    cases ts.createState id <;> rfl
  | createArc source target label =>
    refine (map_outcome _ (FlaggedSystem.createArc_flagged ts source target label)).trans ?_
    show _ = outcome flagged ts ((ts.createArc source target label).map _)
    cases ts.createArc source target label <;> rfl
  | removeState id =>
    refine (map_outcome _ (FlaggedSystem.removeState_flagged h id)).trans ?_
    show _ = outcome flagged ts ((ts.removeState id).map _)
    cases ts.removeState id <;> rfl
  | removeArc source target label =>
    refine (map_outcome _ (FlaggedSystem.removeArc_flagged ts source target label)).trans ?_
    show _ = outcome flagged ts ((ts.removeArc source target label).map _)
    cases ts.removeArc source target label <;> rfl
  | setInitialState id =>
    refine (map_outcome _ (FlaggedSystem.setInitialState_flagged h id)).trans ?_
    show _ = outcome flagged ts ((ts.setInitialState id).map _)
    cases ts.setInitialState id <;> rfl
  | rename name => rfl
  | copy =>
    show EStateM.Result.ok SystemAnswer.done (FlaggedSystem.copied ts.flagged) = .ok .done ts.copied.flagged
    unfold FlaggedSystem.copied flagged
    dsimp only
    rw [Graph.copied_withData]
    rfl

end SystemCall

end PetriNets
