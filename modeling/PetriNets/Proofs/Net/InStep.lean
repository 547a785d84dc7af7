import PetriNets.Proofs.Net.Indexed
import PetriNets.Proofs.Script

/-!
# The tables of a net stay in step with its graph

Every call leaves behind a net that has been built, with the names that it adds and without those it
takes out (`NetCall.tables_of_onNet`), and the tables of nets that have been built are in step with
their graphs (`inStep_indexed`). So they are after any script (`ofScript_inStep`).
-/

namespace PetriNets

namespace NetCall

/-- The place that a call adds if it is not refused. -/
def addedPlace : NetCall → Option String
  | createPlace id => some id
  | addPlace p => some p.id
  | _ => none

/-- The transition that a call adds if it is not refused. -/
def addedTransition : NetCall → Option String
  | createTransition id => some id
  | createLabelledTransition id _ => some id
  | addTransition t => some t.id
  | _ => none

/-- Whether a call takes out the node of this name if it is not refused. -/
def takesOut : NetCall → String → Bool
  | removeNode id, v => v = id
  | _, _ => false

variable {net net' : Net} {c : NetCall} {a : NetAnswer}

theorem answered_eq_ok {ε α : Type} {answer : α → NetAnswer} {error : ε → NetError}
    {r : Except ε (α × Net)} (h : answered answer error r = .ok (a, net')) :
    ∃ x, r = .ok (x, net') ∧ answer x = a := by
  unfold answered at h
  split at h
  · obtain ⟨rfl, rfl⟩ := Prod.mk.inj (Except.ok.inj h)
    exact ⟨_, rfl, rfl⟩
  · cases h

theorem map_eq_ok {ε : Type} {r : Except ε Net} {u : Unit} (h : r.map ((), ·) = .ok (u, net')) :
    r = .ok net' := by
  obtain ⟨x, hx, hpair⟩ := map_eq_ok_iff.1 h
  rw [hx, (Prod.mk.inj hpair).2]

/-- What a call that is not refused leaves behind has been built, and it has the names that were
there, less those that the call takes out and with those that it adds. -/
theorem tables_of_onNet (h : net.Built) (call : c.onNet net = .ok (a, net')) :
    net'.Built ∧
      net'.placeIds = net.placeIds.filter (fun v => !c.takesOut v) ++ c.addedPlace.toList ∧
      net'.transitionIds =
        net.transitionIds.filter (fun v => !c.takesOut v) ++ c.addedTransition.toList := by
  have hplace : ∀ {p i}, net.addPlace p = .ok (i, net') → net'.Built ∧
      net'.placeIds = net.placeIds.filter (fun _ => !false) ++ [p.id] ∧
      net'.transitionIds = net.transitionIds.filter (fun _ => !false) ++ [] := by
    intro p i hcall
    obtain ⟨hplaces, htransitions⟩ := Net.ids_addPlace hcall
    exact ⟨h.addPlace hcall, by simp [hplaces], by simp [htransitions]⟩
  have htransition : ∀ {t i}, net.addTransition t = .ok (i, net') → net'.Built ∧
      net'.placeIds = net.placeIds.filter (fun _ => !false) ++ [] ∧
      net'.transitionIds = net.transitionIds.filter (fun _ => !false) ++ [t.id] := by
    intro t i hcall
    obtain ⟨hplaces, htransitions⟩ := Net.ids_addTransition hcall
    exact ⟨h.addTransition hcall, by simp [hplaces], by simp [htransitions]⟩
  have hsame : net'.Built →
      net'.placeIds = net.placeIds ∧ net'.transitionIds = net.transitionIds → net'.Built ∧
      net'.placeIds = net.placeIds.filter (fun _ => !false) ++ [] ∧
      net'.transitionIds = net.transitionIds.filter (fun _ => !false) ++ [] := by
    rintro hbuilt ⟨hplaces, htransitions⟩
    exact ⟨hbuilt, by simp [hplaces], by simp [htransitions]⟩
  have hwell := h.wellFormed
  cases c with
  | createPlace id =>
    obtain ⟨i, hcall, -⟩ := answered_eq_ok call
    exact hplace hcall
  | addPlace p =>
    obtain ⟨i, hcall, -⟩ := answered_eq_ok call
    exact hplace hcall
  | createTransition id =>
    obtain ⟨i, hcall, -⟩ := answered_eq_ok call
    exact htransition hcall
  | createLabelledTransition id label =>
    obtain ⟨i, hcall, -⟩ := answered_eq_ok call
    exact htransition hcall
  | addTransition t =>
    obtain ⟨i, hcall, -⟩ := answered_eq_ok call
    exact htransition hcall
  | createFlow source target weight =>
    obtain ⟨f, hcall, -⟩ := answered_eq_ok call
    obtain ⟨r, hr, hpair⟩ := bind_eq_ok_iff.1 hcall
    obtain ⟨-, rfl⟩ := Prod.mk.inj (Except.ok.inj hpair)
    obtain ⟨-, -, hnodes, -⟩ := Net.lists_addFlow hwell hr
    exact hsame (h.addFlow rfl hr) (Net.ids_of_nodes_eq hnodes)
  | removeFlow source target =>
    obtain ⟨f, hcall, -⟩ := answered_eq_ok call
    exact hsame (h.removeFlow hcall) (Net.ids_of_nodes_eq (Net.lists_removeFlow hwell hcall).1)
  | removeNode id =>
    obtain ⟨n, hcall, -⟩ := answered_eq_ok call
    obtain ⟨hplaces, htransitions⟩ := Net.ids_removeNode hwell hcall
    exact ⟨h.removeNode hcall, by simp [hplaces, takesOut, addedPlace],
      by simp [htransitions, takesOut, addedTransition]⟩
  | setTokens id tokens =>
    obtain ⟨_, hcall, -⟩ := answered_eq_ok call
    have hcall := map_eq_ok hcall
    exact hsame (h.setTokens hcall) (Net.ids_setTokens hwell hcall)
  | setLabel id label =>
    obtain ⟨_, hcall, -⟩ := answered_eq_ok call
    have hcall := map_eq_ok hcall
    exact hsame (h.setLabel hcall) (Net.ids_setLabel hwell hcall)
  | setInitialMarking m =>
    obtain ⟨_, hcall, -⟩ := answered_eq_ok call
    have hcall := map_eq_ok hcall
    exact hsame (h.setInitialMarking hcall) (Net.ids_setInitialMarking hwell hcall).1
  | copy =>
    obtain ⟨-, rfl⟩ := Prod.mk.inj (Except.ok.inj call)
    exact hsame h.copied (Net.ids_copied net)
  | reverse =>
    obtain ⟨_, hcall, -⟩ := answered_eq_ok call
    have hcall := map_eq_ok hcall
    exact hsame (h.reversed hcall) (Net.ids_reversed hcall)

end NetCall

namespace Net

/-- The net that has come about by these calls, some of which may have been refused. -/
def ofScript (name : String) (calls : List NetCall) : Net :=
  (runScript NetCall.onNet calls (empty name)).2

/-- The answers to these calls. -/
def answers (name : String) (calls : List NetCall) : List (Except NetError NetAnswer) :=
  (runScript NetCall.onNet calls (empty name)).1

theorem built_ofScript (name : String) (calls : List NetCall) : (ofScript name calls).Built :=
  runScript_invariant (fun _ _ _ _ h hc => (NetCall.tables_of_onNet h hc).1) (.empty name) calls

theorem placeIds_ofScript (name : String) (calls : List NetCall) :
    (ofScript name calls).placeIds =
      survivors NetCall.addedPlace NetCall.takesOut (calls.zip (answers name calls)) := by
  have hcall : ∀ c (net : Net) a net', net.Built → NetCall.onNet c net = .ok (a, net') → net'.Built ∧
      net'.placeIds = net.placeIds.filter (fun v => !c.takesOut v) ++ c.addedPlace.toList :=
    fun _ _ _ _ h hc => ⟨(NetCall.tables_of_onNet h hc).1, (NetCall.tables_of_onNet h hc).2.1⟩
  exact table_runScript hcall (.empty name) calls

theorem transitionIds_ofScript (name : String) (calls : List NetCall) :
    (ofScript name calls).transitionIds =
      survivors NetCall.addedTransition NetCall.takesOut (calls.zip (answers name calls)) := by
  have hcall : ∀ c (net : Net) a net', net.Built → NetCall.onNet c net = .ok (a, net') → net'.Built ∧
      net'.transitionIds =
        net.transitionIds.filter (fun v => !c.takesOut v) ++ c.addedTransition.toList :=
    fun _ _ _ _ h hc => ⟨(NetCall.tables_of_onNet h hc).1, (NetCall.tables_of_onNet h hc).2.2⟩
  exact table_runScript hcall (.empty name) calls

end Net

namespace IndexedNet

variable {net : Net} {x y : IndexedNet} {c : NetCall}

theorem answeringAll_eq (calls : List NetCall) (x : IndexedNet) :
    answeringAll calls x = runActions NetCall.onIndexed calls x := by
  induction calls generalizing x with
  | nil => rfl
  | cons c calls ih =>
    have hone : answering c x = attemptAction c.onIndexed x := by
      unfold answering attemptAction
      cases c.onIndexed x <;> rfl
    rw [runActions_cons, ← hone, ← ih]
    rfl

/-- A script on the tables of a net, whatever of it is refused, comes to what it comes to on the
net. -/
theorem answeringAll_indexed (h : net.Built) (calls : List NetCall) :
    answeringAll calls net.indexed =
      Prod.map id Net.indexed (runScript NetCall.onNet calls net) := by
  rw [answeringAll_eq]
  refine runActions_eq Net.indexed (fun _ _ _ _ h hc => (NetCall.tables_of_onNet h hc).1)
    (fun c net h => ?_) h calls
  rw [onIndexed_indexed h.wellFormed]
  cases c.onNet net <;> rfl

theorem ofScript_eq (name : String) (calls : List NetCall) :
    ofScript name calls = (Net.ofScript name calls).indexed :=
  congrArg Prod.snd (answeringAll_indexed (.empty name) calls)

theorem answers_eq (name : String) (calls : List NetCall) :
    answers name calls = Net.answers name calls :=
  congrArg Prod.fst (answeringAll_indexed (.empty name) calls)

/-- A call that is refused leaves the net as it is, with its tables. -/
theorem eq_of_onIndexed_eq_error (h : net.Built) {e : NetError}
    (hc : c.onIndexed net.indexed = .error e y) : y = net.indexed := by
  rw [onIndexed_indexed h.wellFormed] at hc
  cases hcall : c.onNet net with
  | error e =>
    rw [hcall] at hc
    exact (EStateM.Result.error.inj hc).2.symm
  | ok r =>
    rw [hcall] at hc
    cases hc

/-! ## The invariant -/

theorem placeIndex_eq_ok_iff (h : x.placeIds.Nodup) {v : String} {p : PlaceId} :
    x.placeIndex v = .ok p ↔ x.placeIds[p.index]? = some v := by
  rw [← idxOf?_eq_some_iff_of_nodup h]
  unfold placeIndex
  cases x.placeIds.idxOf? v with
  | none => exact ⟨nofun, nofun⟩
  | some i => exact ⟨fun hi => Except.ok.inj hi ▸ rfl, fun hi => Option.some.inj hi ▸ rfl⟩

theorem transitionIndex_eq_ok_iff (h : x.transitionIds.Nodup) {v : String} {t : TransitionId} :
    x.transitionIndex v = .ok t ↔ x.transitionIds[t.index]? = some v := by
  rw [← idxOf?_eq_some_iff_of_nodup h]
  unfold transitionIndex
  cases x.transitionIds.idxOf? v with
  | none => exact ⟨nofun, nofun⟩
  | some i => exact ⟨fun hi => Except.ok.inj hi ▸ rfl, fun hi => Option.some.inj hi ▸ rfl⟩

theorem placeName_of_lt {p : PlaceId} (hp : p.index < x.placeIds.length) :
    x.placeIds[p.index]? = some (x.placeName p) := by
  unfold placeName
  rw [List.getElem?_eq_getElem hp, Option.getD_some]

theorem transitionName_of_lt {t : TransitionId} (ht : t.index < x.transitionIds.length) :
    x.transitionIds[t.index]? = some (x.transitionName t) := by
  unfold transitionName
  rw [List.getElem?_eq_getElem ht, Option.getD_some]

/-- The tables and the graph of a net are in step. -/
structure InStep (x : IndexedNet) : Prop where
  nodup_nodeIds : x.graph.nodeIds.Nodup
  mem_nodeIds_iff : ∀ v, v ∈ x.graph.nodeIds ↔ v ∈ x.placeIds ∨ v ∈ x.transitionIds
  disjoint : x.placeIds.Disjoint x.transitionIds
  nodup_placeIds : x.placeIds.Nodup
  nodup_transitionIds : x.transitionIds.Nodup
  /-- The first table has the nodes that are places, as they follow each other in the graph. -/
  placeIds_eq : x.placeIds = idsOf true x.graph.nodes
  /-- The second table has the nodes that are transitions, as they follow each other in the graph. -/
  transitionIds_eq : x.transitionIds = idsOf false x.graph.nodes
  placeIndex_placeName : ∀ p : PlaceId, p.index < x.placeIds.length →
    x.placeName p ∈ x.placeIds ∧ x.placeIndex (x.placeName p) = .ok p
  placeName_placeIndex : ∀ v ∈ x.placeIds, ∃ p, x.placeIndex v = .ok p ∧
    p.index < x.placeIds.length ∧ x.placeName p = v
  transitionIndex_transitionName : ∀ t : TransitionId, t.index < x.transitionIds.length →
    x.transitionName t ∈ x.transitionIds ∧ x.transitionIndex (x.transitionName t) = .ok t
  transitionName_transitionIndex : ∀ v ∈ x.transitionIds, ∃ t, x.transitionIndex v = .ok t ∧
    t.index < x.transitionIds.length ∧ x.transitionName t = v
  one_le_weight : ∀ f ∈ x.graph.edges, 1 ≤ f.data
  joins : ∀ f ∈ x.graph.edges, f.key.source ∈ x.placeIds ∧ f.key.target ∈ x.transitionIds ∨
    f.key.source ∈ x.transitionIds ∧ f.key.target ∈ x.placeIds
  /-- There is one flow at most from one node to another. -/
  nodup_ends : (x.graph.edges.map fun f => (f.key.source, f.key.target)).Nodup

theorem inStep_indexed (h : net.Built) : net.indexed.InStep := by
  have hnodup := h.wellFormed.graph.nodup_nodeIds
  have hplaces : net.indexed.placeIds.Nodup := Net.nodup_placeIds h.wellFormed
  have htransitions : net.indexed.transitionIds.Nodup :=
    Net.nodup_transitionIds h.wellFormed
  refine ⟨hnodup, fun v => ?_, ?_, hplaces, htransitions, net.placeIds_eq, net.transitionIds_eq,
    fun p hp => ?_, fun v hv => ?_, fun t ht => ?_, fun v hv => ?_, fun f hf => (h.legal f hf).1,
    fun f hf => (h.legal f hf).2, ?_⟩
  · show v ∈ net.graph.nodes.map Node.id ↔ v ∈ net.placeIds ∨ v ∈ net.transitionIds
    rw [net.placeIds_eq, net.transitionIds_eq, mem_ids_iff]
  · show net.placeIds.Disjoint net.transitionIds
    rw [net.placeIds_eq, net.transitionIds_eq]
    exact disjoint_idsOf hnodup
  · have hname := placeName_of_lt hp
    exact ⟨List.mem_of_getElem? hname, (placeIndex_eq_ok_iff hplaces).2 hname⟩
  · obtain ⟨i, hi, rfl⟩ := List.mem_iff_getElem.1 hv
    have hat := List.getElem?_eq_getElem hi
    refine ⟨⟨i⟩, (placeIndex_eq_ok_iff hplaces).2 hat, hi, ?_⟩
    exact Option.some.inj ((placeName_of_lt hi).symm.trans hat)
  · have hname := transitionName_of_lt ht
    exact ⟨List.mem_of_getElem? hname, (transitionIndex_eq_ok_iff htransitions).2 hname⟩
  · obtain ⟨i, hi, rfl⟩ := List.mem_iff_getElem.1 hv
    have hat := List.getElem?_eq_getElem hi
    refine ⟨⟨i⟩, (transitionIndex_eq_ok_iff htransitions).2 hat, hi, ?_⟩
    exact Option.some.inj ((transitionName_of_lt hi).symm.trans hat)
  · -- flows have no label, so their ends are all there is to their keys
    have hkeys : (net.graph.edges.map Edge.key).Nodup := h.wellFormed.graph.nodup_keys
    show (net.graph.edges.map ((fun k => (k.source, k.target)) ∘ Edge.key)).Nodup
    rw [← List.map_map]
    refine hkeys.map_on fun k hk l hl hends => ?_
    have hk := h.wellFormed.unlabelled k hk
    have hl := h.wellFormed.unlabelled l hl
    cases k
    cases l
    simp_all

theorem placeIndex_indexed (net : Net) (v : String) :
    net.indexed.placeIndex v = net.placeIndex v := by
  have hindex : net.placeIndex? v = (net.indexed.placeIds.idxOf? v).map Id.mk := rfl
  unfold placeIndex Net.placeIndex
  rw [hindex]
  cases net.indexed.placeIds.idxOf? v <;> rfl

theorem transitionIndex_indexed (net : Net) (v : String) :
    net.indexed.transitionIndex v = net.transitionIndex v := by
  have hindex : net.transitionIndex? v = (net.indexed.transitionIds.idxOf? v).map Id.mk := rfl
  unfold transitionIndex Net.transitionIndex
  rw [hindex]
  cases net.indexed.transitionIds.idxOf? v <;> rfl

/-- However a net with tables has come about, and whatever of it was refused, its tables and its
graph are in step, the tables have what has been added and not been taken out since, in the order in
which it came, and a call that is refused leaves everything as it is. The net with tables answers as the
one does that has none, and has the names and numbers that are read off that one's graph. -/
theorem ofScript_inStep (name : String) (calls : List NetCall) :
    (ofScript name calls).InStep ∧
      (ofScript name calls).placeIds =
        survivors NetCall.addedPlace NetCall.takesOut (calls.zip (answers name calls)) ∧
      (ofScript name calls).transitionIds =
        survivors NetCall.addedTransition NetCall.takesOut (calls.zip (answers name calls)) ∧
      (∀ (c : NetCall) e y, c.onIndexed (ofScript name calls) = .error e y →
        y = ofScript name calls) ∧
      answers name calls = Net.answers name calls ∧
      ofScript name calls = (Net.ofScript name calls).indexed ∧
      (∀ v, (ofScript name calls).placeIndex v = (Net.ofScript name calls).placeIndex v ∧
        (ofScript name calls).transitionIndex v = (Net.ofScript name calls).transitionIndex v) ∧
      (∀ p, (ofScript name calls).placeName p = (Net.ofScript name calls).placeName p) ∧
      ∀ t, (ofScript name calls).transitionName t = (Net.ofScript name calls).transitionName t := by
  have h := Net.built_ofScript name calls
  rw [ofScript_eq, answers_eq]
  exact ⟨inStep_indexed h, Net.placeIds_ofScript name calls, Net.transitionIds_ofScript name calls,
    fun c e y hc => eq_of_onIndexed_eq_error h hc, rfl, rfl,
    fun v => ⟨placeIndex_indexed _ v, transitionIndex_indexed _ v⟩, fun _ => rfl, fun _ => rfl⟩

end IndexedNet

end PetriNets
