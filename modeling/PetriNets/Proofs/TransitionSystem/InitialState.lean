import PetriNets.Proofs.TransitionSystem.Flagged

/-!
# The initial state

A system has an initial state as long as the last state that was made one is there. `marked` and
`unmarks` tell which calls make a state the initial one, and which make it cease to be, so the initial
state is what survives of a script (`initial_ofScript`). With the flags in the states the same holds
(`ofScript_initial`): one flag at most is up, and it is that of the initial state.
-/

namespace PetriNets

namespace SystemCall

/-- The state that the call makes the initial one. -/
def marked : SystemCall → Option String
  | setInitialState id => some id
  | _ => none

/-- Whether the call makes the state, if it was the initial one, cease to be so. -/
def unmarks : SystemCall → String → Bool
  | setInitialState _, _ => true
  | removeState id, v => v = id
  | _, _ => false

variable {ts ts' : TransitionSystem} {c : SystemCall} {a : SystemAnswer} {v : String}

theorem marked_eq_some_iff : c.marked = some v ↔ c = .setInitialState v := by
  cases c <;> simp [marked]

theorem unmarks_eq_false_iff :
    c.unmarks v = false ↔ (∀ w, c ≠ .setInitialState w) ∧ c ≠ .removeState v := by
  cases c <;> simp [unmarks, eq_comm]

/-- A call that is not refused leaves a well-formed system behind, whose initial state is the one that
it has made so, or the one that there was, if it has not made it cease to be so. -/
theorem initial_of_onSystem (h : ts.WellFormed) (call : c.onSystem ts = .ok (a, ts')) :
    ts'.WellFormed ∧ ts'.initial.toList =
      ts.initial.toList.filter (fun v => !c.unmarks v) ++ c.marked.toList := by
  have hsame : ts'.WellFormed → ts'.initial = ts.initial → ts'.WellFormed ∧ ts'.initial.toList =
      ts.initial.toList.filter (fun _ => !false) ++ [] := by
    intro hwell hinitial
    exact ⟨hwell, by simp [hinitial]⟩
  cases c with
  | createState id =>
    obtain ⟨⟨name, next⟩, hcall, hpair⟩ := map_eq_ok_iff.1 call
    obtain ⟨-, rfl⟩ := Prod.mk.inj hpair
    obtain ⟨hwell, -, -, hinitial, -⟩ := h.createState hcall
    exact hsame hwell hinitial
  | createArc source target label =>
    obtain ⟨next, hcall, hpair⟩ := map_eq_ok_iff.1 call
    obtain ⟨-, rfl⟩ := Prod.mk.inj hpair
    obtain ⟨hwell, -, -, hinitial⟩ := h.addArc (Option.some_ne_none _) hcall
    exact hsame hwell hinitial
  | removeState id =>
    obtain ⟨⟨s, next⟩, hcall, hpair⟩ := map_eq_ok_iff.1 call
    obtain ⟨-, rfl⟩ := Prod.mk.inj hpair
    refine ⟨h.removeState hcall, ?_⟩
    obtain ⟨_, -, hts⟩ := bind_eq_ok_iff.1 hcall
    cases hts
    show (if ts.initial = some id then none else ts.initial).toList =
      ts.initial.toList.filter (fun v => !decide (v = id)) ++ []
    cases ts.initial with
    | none => rfl
    | some v => by_cases hv : v = id <;> simp [hv]
  | removeArc source target label =>
    obtain ⟨⟨b, next⟩, hcall, hpair⟩ := map_eq_ok_iff.1 call
    obtain ⟨-, rfl⟩ := Prod.mk.inj hpair
    refine hsame (h.removeArc hcall) ?_
    obtain ⟨_, -, hts⟩ := bind_eq_ok_iff.1 hcall
    cases hts
    rfl
  | setInitialState id =>
    obtain ⟨next, hcall, hpair⟩ := map_eq_ok_iff.1 call
    obtain ⟨-, rfl⟩ := Prod.mk.inj hpair
    obtain ⟨hwell, -, rfl⟩ := h.setInitialState hcall
    exact ⟨hwell, by simp [unmarks, marked]⟩
  | rename name =>
    obtain ⟨-, rfl⟩ := Prod.mk.inj (Except.ok.inj call)
    exact hsame (h.of_eq (h.graph.rename name) rfl rfl rfl) rfl
  | copy =>
    obtain ⟨-, rfl⟩ := Prod.mk.inj (Except.ok.inj call)
    have hids : ts.copied.stateIds = ts.stateIds := Graph.nodeIds_copied ts.graph
    exact hsame (h.of_eq h.graph.copied hids (Graph.keys_copied ts.graph) rfl) rfl

end SystemCall

/-- Where keys are unique, an item is alone under its key. -/
theorem filter_key_eq {α κ : Type} [DecidableEq κ] {key : α → κ} {xs : List α} (k : κ)
    (h : (xs.map key).Nodup) : xs.filter (key · = k) = (xs.find? (key · = k)).toList := by
  induction xs with
  | nil => rfl
  | cons x xs ih =>
    obtain ⟨hx, hxs⟩ := List.nodup_cons.1 h
    by_cases hk : key x = k
    · have hrest : xs.filter (key · = k) = [] := by
        refine List.filter_eq_nil_iff.2 fun y hy hkey => hx ?_
        rw [hk, ← of_decide_eq_true hkey]
        exact List.mem_map_of_mem hy
      simp [hk, hrest]
    · simp [hk, ih hxs]

namespace TransitionSystem

variable {ts : TransitionSystem}

/-- The system that has come about by these calls, some of which may have been refused. -/
def ofScript (name : String) (calls : List SystemCall) : TransitionSystem :=
  (runScript SystemCall.onSystem calls (empty name)).2

/-- The answers to these calls. -/
def answers (name : String) (calls : List SystemCall) : List (Except GraphError SystemAnswer) :=
  (runScript SystemCall.onSystem calls (empty name)).1

theorem wellFormed_ofScript (name : String) (calls : List SystemCall) :
    (ofScript name calls).WellFormed :=
  runScript_invariant (fun _ _ _ _ h call => (SystemCall.initial_of_onSystem h call).1)
    (wellFormed_empty name) calls

theorem initial_ofScript (name : String) (calls : List SystemCall) :
    (ofScript name calls).initial.toList =
      survivors SystemCall.marked SystemCall.unmarks (calls.zip (answers name calls)) := by
  have hcall : ∀ c (ts : TransitionSystem) a ts', ts.WellFormed → SystemCall.onSystem c ts = .ok (a, ts') →
      ts'.WellFormed ∧ ts'.initial.toList =
        ts.initial.toList.filter (fun v => !c.unmarks v) ++ c.marked.toList :=
    fun _ _ _ _ h call => SystemCall.initial_of_onSystem h call
  exact table_runScript hcall (wellFormed_empty name) calls

/-- The initial state is the one that was made so last, if it has not been taken out since. -/
theorem initial_ofScript_iff (name : String) (calls : List SystemCall) (v : String) :
    (ofScript name calls).initial = some v ↔ ∃ earlier a later,
      calls.zip (answers name calls) = earlier ++ (.setInitialState v, .ok a) :: later ∧
      ∀ c b, (c, .ok b) ∈ later → (∀ w, c ≠ .setInitialState w) ∧ c ≠ .removeState v := by
  have hmem : (ofScript name calls).initial = some v ↔ v ∈ (ofScript name calls).initial.toList :=
    Option.mem_toList.symm
  rw [hmem, initial_ofScript, mem_survivors_iff]
  simp only [SystemCall.marked_eq_some_iff, dropped_eq_false_iff, SystemCall.unmarks_eq_false_iff]
  constructor
  · rintro ⟨earlier, _, a, later, hhistory, rfl, hkept⟩
    exact ⟨earlier, a, later, hhistory, hkept⟩
  · rintro ⟨earlier, a, later, hhistory, hkept⟩
    exact ⟨earlier, _, a, later, hhistory, rfl, hkept⟩

/-! ## With flags -/

theorem initialState?_flagged (ts : TransitionSystem) :
    ts.flagged.initialState? = ts.initialState?.map ts.flag := by
  show ts.initial.bind _ = (ts.initial.bind _).map _
  cases ts.initial with
  | none => rfl
  | some v =>
    show ((Graph.withData ts.marks ts.graph).slot? v).map Slot.node =
      ((ts.graph.slot? v).map Slot.node).map ts.flag
    rw [Graph.slot?_withData]
    cases ts.graph.slot? v <;> rfl

/-- The flag that is up is that of the initial state. -/
theorem WellFormed.filter_states_flagged (h : ts.WellFormed) :
    ts.flagged.states.filter Node.data = ts.flagged.initialState?.toList := by
  have hstates : ts.flagged.states.filter Node.data =
      (ts.states.filter fun s => ts.initial = some s.id).map ts.flag := by
    show ((Graph.withData ts.marks ts.graph).nodes).filter _ = _
    rw [Graph.nodes_withData, List.filter_map]
    rfl
  rw [hstates, initialState?_flagged]
  unfold initialState?
  cases ts.initial with
  | none => simp
  | some v =>
    have halone := filter_key_eq v h.graph.nodup_nodeIds
    simp only [Option.some.injEq, Option.bind_some, Graph.map_node_slot?, eq_comm (a := v)]
    show (ts.graph.nodes.filter _).map _ = _
    rw [halone]
    cases ts.graph.nodes.find? (·.id = v) <;> rfl

/-- A state that is added is new, so the initial state, which was there, is another one. -/
theorem WellFormed.created_flagged (h : ts.WellFormed) {id : Option String} {s : FlaggedState}
    {y : FlaggedSystem} (call : (SystemCall.createState id).onFlagged ts.flagged = .ok (.state s) y) :
    s.data = false ∧ (∀ v, id = some v → s.id = v) ∧ (∀ t ∈ ts.flagged.states, t.id ≠ s.id) ∧
      y.states = ts.flagged.states ++ [s] ∧ y.initialState? = ts.flagged.initialState? := by
  rw [SystemCall.onFlagged_flagged h] at call
  obtain ⟨ts', hcall, rfl⟩ := outcome_eq_ok call
  obtain ⟨⟨name, next⟩, hcreate, hpair⟩ := map_eq_ok_iff.1 hcall
  obtain ⟨hs, rfl⟩ := Prod.mk.inj hpair
  obtain rfl := SystemAnswer.state.inj hs
  obtain ⟨hwell, hstates, -, hinitial, hname⟩ := h.createState hcreate
  have hnodup := hwell.graph.nodup_nodeIds
  have hmarks : next.marks = ts.marks := by
    unfold marks
    rw [hinitial]
  have hnew : ∀ t ∈ ts.states, t.id ≠ name := by
    unfold Graph.nodeIds at hnodup
    rw [show next.graph.nodes = _ from hstates, List.map_append] at hnodup
    intro t ht
    exact (List.nodup_append.1 hnodup).2.2 _ (List.mem_map_of_mem ht) _ (List.mem_singleton_self _)
  have hdata : (next.flag ⟨name, (), ∅⟩).data = false := by
    refine (congrFun hmarks name).trans (h.marks_of_notMem fun hmem => ?_)
    obtain ⟨t, ht, rfl⟩ := Graph.mem_nodeIds.1 hmem
    exact hnew t ht rfl
  have hall : next.flagged.states = ts.flagged.states ++ [next.flag ⟨name, (), ∅⟩] := by
    show (Graph.withData next.marks next.graph).nodes = (Graph.withData ts.marks ts.graph).nodes ++ _
    rw [Graph.nodes_withData, Graph.nodes_withData, show next.graph.nodes = _ from hstates,
      List.map_append, ← hmarks]
    rfl
  refine ⟨hdata, hname, ?_, hall, ?_⟩
  · show ∀ t ∈ (Graph.withData ts.marks ts.graph).nodes, t.id ≠ name
    rw [Graph.nodes_withData, List.forall_mem_map]
    exact hnew
  · have hflags := hwell.filter_states_flagged
    rw [hall, List.filter_append, List.filter_singleton, hdata, h.filter_states_flagged] at hflags
    have hsame : ts.flagged.initialState?.toList = next.flagged.initialState?.toList := by
      simpa using hflags
    have hhead := congrArg List.head? hsame
    rw [Option.head?_toList, Option.head?_toList] at hhead
    exact hhead.symm

end TransitionSystem

namespace FlaggedSystem

open TransitionSystem (flagged)

/-- The system with flags that has come about by these calls, some of which may have been refused. -/
def ofScript (name : String) (calls : List SystemCall) : FlaggedSystem :=
  (runActions SystemCall.onFlagged calls (empty name)).2

/-- The answers to these calls. -/
def answers (name : String) (calls : List SystemCall) : List (Except GraphError SystemAnswer) :=
  (runActions SystemCall.onFlagged calls (empty name)).1

theorem runActions_empty (name : String) (calls : List SystemCall) :
    runActions SystemCall.onFlagged calls (empty name) =
      Prod.map id flagged (runScript SystemCall.onSystem calls (.empty name)) :=
  runActions_eq flagged (fun _ _ _ _ h call => (SystemCall.initial_of_onSystem h call).1)
    (fun c _ h => SystemCall.onFlagged_flagged h c) (TransitionSystem.wellFormed_empty name) calls

theorem ofScript_eq (name : String) (calls : List SystemCall) :
    ofScript name calls = (TransitionSystem.ofScript name calls).flagged :=
  congrArg Prod.snd (runActions_empty name calls)

theorem answers_eq (name : String) (calls : List SystemCall) :
    answers name calls = TransitionSystem.answers name calls :=
  congrArg Prod.fst (runActions_empty name calls)

/-- However a system with flags has come about, and whatever of it was refused, one flag at most is up,
and it is that of the initial state. This is the state that was made so last, if it has not been taken
out since; a state that is added is new and has no flag, even under a name that was taken out before. A
call that is refused leaves everything as it is. Each call is answered as it is where the name of the
initial state is all that is kept. -/
theorem ofScript_initial (name : String) (calls : List SystemCall) :
    (ofScript name calls).states.filter Node.data = (ofScript name calls).initialState?.toList ∧
      (∀ v, (ofScript name calls).initialState?.map Node.id = some v ↔
        ∃ earlier a later,
          calls.zip (answers name calls) = earlier ++ (.setInitialState v, .ok a) :: later ∧
          ∀ c b, (c, .ok b) ∈ later → (∀ w, c ≠ .setInitialState w) ∧ c ≠ .removeState v) ∧
      (∀ id s y, (SystemCall.createState id).onFlagged (ofScript name calls) = .ok (.state s) y →
        s.data = false ∧ (∀ v, id = some v → s.id = v) ∧
          (∀ t ∈ (ofScript name calls).states, t.id ≠ s.id) ∧
          y.states = (ofScript name calls).states ++ [s] ∧
          y.initialState? = (ofScript name calls).initialState?) ∧
      (∀ (c : SystemCall) e y, c.onFlagged (ofScript name calls) = .error e y →
        y = ofScript name calls) ∧
      (answers name calls).length = calls.length ∧
      answers name calls = TransitionSystem.answers name calls ∧
      ofScript name calls = (TransitionSystem.ofScript name calls).flagged := by
  have h := TransitionSystem.wellFormed_ofScript name calls
  rw [ofScript_eq, answers_eq]
  refine ⟨h.filter_states_flagged, fun v => ?_, fun id s y call => h.created_flagged call, ?_,
    length_runScript _ _, rfl, rfl⟩
  · rw [← TransitionSystem.initial_ofScript_iff, TransitionSystem.initialState?_flagged,
      Option.map_map]
    exact iff_of_eq (congrArg (· = some v) h.map_id_initialState?)
  · intro c e y hc
    rw [SystemCall.onFlagged_flagged h] at hc
    exact (outcome_eq_error hc).2

/-- The initial state is taken out and put back, another takes its place, and the last two calls are
refused. -/
def lampScript : List SystemCall :=
  [.createState (some "off"), .createState none, .setInitialState "off", .removeState "off",
    .createState (some "off"), .setInitialState "s0", .setInitialState "on", .removeState "on"]

theorem ofScript_initial_lampScript :
    (ofScript "lamp" lampScript).initialState?.map Node.id = some "s0" ∧
      (ofScript "lamp" lampScript).states.filter Node.data = [⟨"s0", true, ∅⟩] ∧
      (∃ s y, (SystemCall.createState none).onFlagged (ofScript "lamp" lampScript) =
        .ok (.state s) y ∧ s.data = false) ∧
      ∃ e, (SystemCall.removeState "on").onFlagged (ofScript "lamp" lampScript) =
        .error e (ofScript "lamp" lampScript) := by
  obtain ⟨hflags, hinitial, hcreated, hrefused, -⟩ := ofScript_initial "lamp" lampScript
  refine ⟨?_, ?_, ?_, ?_⟩
  · refine (hinitial "s0").2 ⟨(lampScript.zip (answers "lamp" lampScript)).take 5, .done,
      [(.setInitialState "on", .error (.nodeNotFound "on")),
        (.removeState "on", .error (.nodeNotFound "on"))], rfl, ?_⟩
    intro c b hc
    simp at hc
  · rw [hflags]
    rfl
  · refine ⟨⟨"s1", false, ∅⟩, _, rfl, ?_⟩
    exact (hcreated none ⟨"s1", false, ∅⟩ _ rfl).1
  · have hcall : ∃ e y, (SystemCall.removeState "on").onFlagged (ofScript "lamp" lampScript) =
        .error e y := ⟨_, _, rfl⟩
    obtain ⟨e, y, hcall⟩ := hcall
    exact ⟨e, (hrefused _ e y hcall) ▸ hcall⟩

end FlaggedSystem

end PetriNets
