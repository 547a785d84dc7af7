import PetriNets.Proofs.Net.Backward
import PetriNets.Proofs.Net.Indexed

/-!
# Removing nodes

A node that is removed takes its flows with it, and what came after it moves down by one number
(`Id.moved`). No other flow changes, so a transition takes from each place that is left what it took
before and gives what it gave (`weight_removeNode`), and finds as much there, if the marking lost just the
entry of the node (`starvesAt_removeNode`, `overflowsAt_removeNode`). The flows that are gone decide
nothing where a transition has been removed, as no other transition has them. Where a place has been
removed, they decide whether it starves or overflows.
-/

namespace PetriNets

/-- The number that something gets once what has another number is taken out. -/
def Id.moved {tag : Char} (removed i : Id tag) : Id tag :=
  if i.index < removed.index then i else ⟨i.index - 1⟩

theorem getElem?_eraseIdx_moved {tag : Char} {α : Type} {xs : List α} {removed i : Id tag}
    (hne : i ≠ removed) : (xs.eraseIdx removed.index)[(removed.moved i).index]? = xs[i.index]? := by
  have hindex : i.index ≠ removed.index := fun h => hne (by cases i; cases removed; exact congrArg _ h)
  unfold Id.moved
  split
  · next hlt => rw [List.getElem?_eraseIdx_of_lt hlt]
  · next hlt =>
    have hafter : removed.index ≤ i.index - 1 := by omega
    rw [List.getElem?_eraseIdx_of_ge hafter]
    exact congrArg (xs[·]?) (by omega)

/-- What is taken out by its name, is taken out at its number. -/
theorem filter_ne_eq_eraseIdx {α β : Type} [DecidableEq β] {xs : List α} {name : α → β} {i : Nat}
    {b : β} (h : (xs.map name).Nodup) (hb : (xs.map name)[i]? = some b) :
    xs.filter (fun a => name a ≠ b) = xs.eraseIdx i := by
  induction xs generalizing i with
  | nil => cases hb
  | cons x xs ih =>
    obtain ⟨hx, hrest⟩ := List.nodup_cons.1 h
    cases i with
    | zero =>
      obtain rfl : name x = b := Option.some.inj hb
      rw [List.filter_cons, if_neg (by simp), List.eraseIdx_cons_zero, List.filter_eq_self]
      exact fun a ha => decide_eq_true fun heq => hx (heq ▸ List.mem_map_of_mem ha)
    | succ i =>
      have hne : name x ≠ b := fun heq => hx (heq ▸ List.mem_of_getElem? hb)
      rw [List.filter_cons, if_pos (decide_eq_true hne), ih hrest hb, List.eraseIdx_cons_succ]

theorem filterMap_filter_ne {α : Type} {ns : List (Node Element)} {as? : Node Element → Option α}
    {name : α → String} (hname : ∀ n a, as? n = some a → name a = n.id) (id : String) :
    (ns.filter fun n => n.id ≠ id).filterMap as? = (ns.filterMap as?).filter fun a => name a ≠ id := by
  rw [List.filterMap_filter, List.filter_filterMap]
  refine List.filterMap_congr fun n _ => ?_
  cases hn : as? n with
  | none => simp
  | some a => simp [← hname n a hn, Option.filter]

/-- Items that are passed over anyway can be taken out of a list before it is searched. -/
theorem find?_filter_of_imp {α : Type} {xs : List α} {keep test test' : α → Bool}
    (hkept : ∀ x ∈ xs, keep x = true → test' x = test x)
    (hgone : ∀ x ∈ xs, keep x = false → test x = false) :
    (xs.filter keep).find? test' = xs.find? test := by
  rw [List.find?_filter]
  refine List.find?_congr fun x hx => ?_
  cases hkeep : keep x with
  | true => simp [hkept x hx hkeep]
  | false => simp [hgone x hx hkeep]

theorem source_of_touches {k : EdgeKey} {id : String} (h : k.touches id = true) (hne : k.target ≠ id) :
    k.source = id := by
  simpa [EdgeKey.touches, hne] using h

theorem target_of_touches {k : EdgeKey} {id : String} (h : k.touches id = true) (hne : k.source ≠ id) :
    k.target = id := by
  simpa [EdgeKey.touches, hne] using h

/-- The marking without its entry for one place. -/
def Marking.without (m : Marking) (p : PlaceId) : Marking := ⟨m.tokens.eraseIdx p.index⟩

theorem Marking.count_without {m : Marking} {p q : PlaceId} (hne : q ≠ p) :
    (m.without p).count (p.moved q) = m.count q := by
  unfold count without
  rw [getElem?_eraseIdx_moved hne]

theorem Marking.size_without {m : Marking} {p : PlaceId} (hp : p.index < m.size) :
    (m.without p).size = m.size - 1 :=
  List.length_eraseIdx_of_lt hp

namespace Net

variable {net net' : Net} {n : Node Element} {m m' l : Marking} {p q : PlaceId} {j t : TransitionId}
  {r : TransitionRef} {rs : List TransitionRef} {id v w source target : String} {f : Flow}

theorem placeIndex_eq_ok_iff (h : net.WellFormed) :
    net.placeIndex v = .ok q ↔ net.placeIds[q.index]? = some v := by
  rw [← placeIndex?_eq_some_iff h]
  unfold placeIndex
  cases net.placeIndex? v <;> simp

theorem transitionIndex_eq_ok_iff (h : net.WellFormed) :
    net.transitionIndex v = .ok t ↔ net.transitionIds[t.index]? = some v := by
  rw [← idxOf?_eq_some_iff_of_nodup (nodup_transitionIds h)]
  obtain ⟨i⟩ := t
  unfold transitionIndex transitionIndex?
  cases net.transitionIds.idxOf? v <;> simp

/-! ## What is left of a net -/

theorem exists_removeNode (h : net.WellFormed) (hid : ∃ n ∈ net.graph.nodes, n.id = id) :
    ∃ n net', net.removeNode id = .ok (n, net') := by
  obtain ⟨n, hn, hname⟩ := hid
  obtain ⟨g, hgraph⟩ : ∃ g, net.graph.removeNode id = .ok (n, g) :=
    ⟨_, (Graph.removeNode_eq_ok_iff h.graph).2 ⟨hn, hname, rfl⟩⟩
  exact ⟨n, ⟨g⟩, bind_eq_ok_iff.2 ⟨_, hgraph, rfl⟩⟩

theorem firing_eq_ok_iff : net.firing m v = .ok m' ↔
    (∀ f ∈ net.flows, net.starvesAt m v f = false) ∧
      (∀ f ∈ net.flows, net.overflowsAt m v f = false) ∧
      ⟨net.placeIds.map (net.afterFiring m v)⟩ = m' := by
  unfold firing
  constructor
  · intro hok
    split at hok
    · cases hok
    · next hstarve =>
      split at hok
      · cases hok
      · next hoverflow =>
        exact ⟨fun f hf => Bool.eq_false_of_not_eq_true (List.find?_eq_none.1 hstarve f hf),
          fun f hf => Bool.eq_false_of_not_eq_true (List.find?_eq_none.1 hoverflow f hf),
          Except.ok.inj hok⟩
  · rintro ⟨hstarve, hoverflow, rfl⟩
    rw [List.find?_eq_none.2 fun f hf => Bool.not_eq_true _ ▸ hstarve f hf,
      List.find?_eq_none.2 fun f hf => Bool.not_eq_true _ ▸ hoverflow f hf]

section RemoveNode

variable (h : net.Built) (call : net.removeNode id = .ok (n, net'))
include h call

theorem places_removeNode : net'.places = net.places.filter fun p => p.id ≠ id := by
  obtain ⟨-, hnodes, -⟩ := lists_removeNode h.wellFormed call
  unfold places
  rw [hnodes, filterMap_filter_ne]
  exact fun _ _ hp => congrArg Node.id (Node.asPlace?_eq_some_iff.1 hp)

theorem transitions_removeNode : net'.transitions = net.transitions.filter fun t => t.id ≠ id := by
  obtain ⟨-, hnodes, -⟩ := lists_removeNode h.wellFormed call
  unfold transitions
  rw [hnodes, filterMap_filter_ne]
  exact fun _ _ ht => congrArg Node.id (Node.asTransition?_eq_some_iff.1 ht)

theorem flows_removeNode : net'.flows = net.flows.filter fun f => !f.key.touches id :=
  (lists_removeNode h.wellFormed call).2.2

theorem weight_removeNode (hsource : source ≠ id) (htarget : target ≠ id) :
    net'.weight source target = net.weight source target := by
  rw [weight_eq (h.removeNode call).wellFormed, weight_eq h.wellFormed, flows_removeNode h call]
  congr 2
  refine find?_filter_of_imp (fun _ _ _ => rfl) fun f _ htouches => ?_
  rw [Bool.not_eq_false'] at htouches
  simp only [EdgeKey.touches, Bool.or_eq_true, decide_eq_true_eq] at htouches
  rcases htouches with rfl | rfl
  · simp [Ne.symm hsource]
  · simp [Ne.symm htarget]

theorem mem_placeIds_removeNode_iff : v ∈ net'.placeIds ↔ v ∈ net.placeIds ∧ v ≠ id := by
  rw [(ids_removeNode h.wellFormed call).1, List.mem_filter, decide_eq_true_iff]

theorem mem_transitionIds_removeNode_iff :
    w ∈ net'.transitionIds ↔ w ∈ net.transitionIds ∧ w ≠ id := by
  rw [(ids_removeNode h.wellFormed call).2, List.mem_filter, decide_eq_true_iff]

theorem mem_flows_removeNode_iff : f ∈ net'.flows ↔ f ∈ net.flows ∧ f.key.touches id = false := by
  rw [flows_removeNode h call, List.mem_filter, Bool.not_eq_true']

/-! ## Firing without a node -/

section Held

variable (hheld : ∀ v ∈ net'.placeIds, net'.held l v = net.held m v)
include hheld

theorem afterFiring_removeNode (hv : v ∈ net'.placeIds) (hw : w ≠ id) :
    net'.afterFiring l w v = net.afterFiring m w v := by
  have hne : v ≠ id := ((mem_placeIds_removeNode_iff h call).1 hv).2
  unfold afterFiring
  rw [hheld v hv, weight_removeNode h call hne hw, weight_removeNode h call hw hne]

theorem starvesAt_removeNode (hw : w ∈ net'.transitionIds) (hf : f ∈ net'.flows) :
    net'.starvesAt l w f = net.starvesAt m w f := by
  rw [Bool.eq_iff_iff, starvesAt_iff, starvesAt_iff]
  refine and_congr_right fun htarget => ?_
  obtain ⟨p, hp⟩ := exists_placeIndex?_source (h.removeNode call) hw hf htarget
  rw [hheld _ (mem_placeIds_of_placeIndex? hp)]

theorem overflowsAt_removeNode (hw : w ∈ net'.transitionIds) (hf : f ∈ net'.flows) :
    net'.overflowsAt l w f = net.overflowsAt m w f := by
  rw [Bool.eq_iff_iff, overflowsAt_iff, overflowsAt_iff]
  refine and_congr_right fun hsource => ?_
  obtain ⟨p, hp⟩ := exists_placeIndex?_target (h.removeNode call) hw hf hsource
  have hne : w ≠ id := ((mem_transitionIds_removeNode_iff h call).1 hw).2
  unfold Overflows
  rw [afterFiring_removeNode h call hheld (mem_placeIds_of_placeIndex? hp) hne]

end Held

section Place

variable (hp : net.placeIds[p.index]? = some id)
include hp

theorem places_removeNode_of_place : net'.places = net.places.eraseIdx p.index := by
  rw [places_removeNode h call]
  exact filter_ne_eq_eraseIdx (nodup_placeIds h.wellFormed) hp

theorem placeIds_removeNode_of_place : net'.placeIds = net.placeIds.eraseIdx p.index := by
  unfold placeIds
  rw [places_removeNode_of_place h call hp, List.eraseIdx_map]

theorem transitions_removeNode_of_place : net'.transitions = net.transitions := by
  rw [transitions_removeNode h call, List.filter_eq_self]
  refine fun t ht => decide_eq_true fun heq => ?_
  have htransition : id ∈ net.transitionIds := List.mem_map.2 ⟨t, ht, heq⟩
  exact notMem_placeIds h.wellFormed htransition (List.mem_of_getElem? hp)

theorem placeIndex_removeNode_of_place (hv : v ≠ id) (hq : net.placeIds[q.index]? = some v) :
    net'.placeIds[(p.moved q).index]? = some v := by
  have hne : q ≠ p := fun heq => hv (Option.some.inj (hq.symm.trans (heq ▸ hp)))
  rw [placeIds_removeNode_of_place h call hp, getElem?_eraseIdx_moved hne]
  exact hq

theorem held_without (hv : v ∈ net'.placeIds) : net'.held (m.without p) v = net.held m v := by
  obtain ⟨hv, hne⟩ := (mem_placeIds_removeNode_iff h call).1 hv
  obtain ⟨q, hq⟩ := exists_placeIndex? h.wellFormed hv
  have hname := (placeIndex?_eq_some_iff h.wellFormed).1 hq
  have hq' : net'.placeIndex? v = some (p.moved q) :=
    (placeIndex?_eq_some_iff (h.removeNode call).wellFormed).2
      (placeIndex_removeNode_of_place h call hp hne hname)
  rw [held_eq hq, held_eq hq']
  exact Marking.count_without fun heq => hne (Option.some.inj (hname.symm.trans (heq ▸ hp)))

theorem transitionIndex_removeNode_of_place (hw : net.transitionIndex w = .ok t) :
    net'.transitionIndex w = .ok t := by
  rw [transitionIndex_eq_ok_iff (h.removeNode call).wellFormed]
  unfold transitionIds
  rw [transitions_removeNode_of_place h call hp]
  exact (transitionIndex_eq_ok_iff h.wellFormed).1 hw

theorem size_without (hsize : m.size = net.placeCount) : (m.without p).size = net'.placeCount := by
  have hlt : p.index < net.places.length := by
    have hlt := (List.getElem?_eq_some_iff.1 hp).1
    rwa [length_placeIds] at hlt
  unfold placeCount
  rw [Marking.size_without (hsize ▸ hlt), places_removeNode_of_place h call hp,
    List.length_eraseIdx_of_lt hlt, hsize]
  rfl

/-- What firing leaves on the places, but for the one that has been removed. -/
theorem afterFiring_without (hw : w ∈ net.transitionIds) :
    ⟨net'.placeIds.map (net'.afterFiring (m.without p) w)⟩ =
      Marking.without ⟨net.placeIds.map (net.afterFiring m w)⟩ p := by
  have hheld := fun v (hv : v ∈ net'.placeIds) => held_without h call hp (m := m) hv
  have hne : w ≠ id := fun heq =>
    notMem_placeIds h.wellFormed hw (heq ▸ List.mem_of_getElem? hp)
  refine congrArg Marking.mk ?_
  rw [List.eraseIdx_map, ← placeIds_removeNode_of_place h call hp]
  exact List.map_congr_left fun v hv => afterFiring_removeNode h call hheld hv hne

/-- A step that is possible is possible without one of the places. -/
theorem firing_without (hw : w ∈ net.transitionIds) (hfire : net.firing m w = .ok m') :
    net'.firing (m.without p) w = .ok (m'.without p) := by
  have hheld := fun v (hv : v ∈ net'.placeIds) => held_without h call hp (m := m) hv
  have hne : w ≠ id := fun heq =>
    notMem_placeIds h.wellFormed hw (heq ▸ List.mem_of_getElem? hp)
  have hw' := (mem_transitionIds_removeNode_iff h call).2 ⟨hw, hne⟩
  have hkept : ∀ f ∈ net'.flows, f ∈ net.flows := fun f hf =>
    ((mem_flows_removeNode_iff h call).1 hf).1
  obtain ⟨hstarve, hoverflow, rfl⟩ := firing_eq_ok_iff.1 hfire
  refine firing_eq_ok_iff.2 ⟨fun f hf => ?_, fun f hf => ?_, afterFiring_without h call hp hw⟩
  · rw [starvesAt_removeNode h call hheld hw' hf]
    exact hstarve f (hkept f hf)
  · rw [overflowsAt_removeNode h call hheld hw' hf]
    exact hoverflow f (hkept f hf)

/-- A step that is possible without one of the places is possible, if it is for this place. -/
theorem firing_of_firing_without (hw : w ∈ net.transitionIds)
    (hfire : net'.firing (m.without p) w = .ok l) (hstarve : ¬ net.Starves m w id)
    (hoverflow : ¬ net.Overflows m w id) : ∃ m', net.firing m w = .ok m' ∧ m'.without p = l := by
  have hheld := fun v (hv : v ∈ net'.placeIds) => held_without h call hp (m := m) hv
  have hne : w ≠ id := fun heq =>
    notMem_placeIds h.wellFormed hw (heq ▸ List.mem_of_getElem? hp)
  have hw' := (mem_transitionIds_removeNode_iff h call).2 ⟨hw, hne⟩
  obtain ⟨hstarve', hoverflow', hresult⟩ := firing_eq_ok_iff.1 hfire
  -- a flow that is left decides what it decided; one that is gone is between the place and `w`
  refine ⟨_, firing_eq_ok_iff.2 ⟨fun f hf => ?_, fun f hf => ?_, rfl⟩,
    (afterFiring_without h call hp hw).symm.trans hresult⟩
  · cases htouches : f.key.touches id with
    | false =>
      have hf' := (mem_flows_removeNode_iff h call).2 ⟨hf, htouches⟩
      rw [← starvesAt_removeNode h call hheld hw' hf']
      exact hstarve' f hf'
    | true =>
      refine Bool.eq_false_of_not_eq_true fun htrue => hstarve ?_
      obtain ⟨htarget, hcovers⟩ := starvesAt_iff.1 htrue
      obtain rfl := source_of_touches htouches (htarget ▸ hne)
      have hweight := weight_of_mem h.wellFormed hf
      unfold Starves
      rw [← htarget, hweight]
      exact hcovers
  · cases htouches : f.key.touches id with
    | false =>
      have hf' := (mem_flows_removeNode_iff h call).2 ⟨hf, htouches⟩
      rw [← overflowsAt_removeNode h call hheld hw' hf']
      exact hoverflow' f hf'
    | true =>
      refine Bool.eq_false_of_not_eq_true fun htrue => hoverflow ?_
      obtain ⟨hsource, hspills⟩ := overflowsAt_iff.1 htrue
      obtain rfl := target_of_touches htouches (hsource ▸ hne)
      exact hspills

end Place

section Transition

variable (hj : net.transitionIds[j.index]? = some id)
include hj

theorem places_removeNode_of_transition : net'.places = net.places := by
  rw [places_removeNode h call, List.filter_eq_self]
  exact fun p hp => decide_eq_true fun heq =>
    notMem_placeIds h.wellFormed (List.mem_of_getElem? hj) (List.mem_map.2 ⟨p, hp, heq⟩)

theorem transitions_removeNode_of_transition : net'.transitions = net.transitions.eraseIdx j.index := by
  rw [transitions_removeNode h call]
  exact filter_ne_eq_eraseIdx (nodup_transitionIds h.wellFormed) hj

theorem transitionIds_getElem?_moved (hv : v ≠ id) (ht : net.transitionIds[t.index]? = some v) :
    net'.transitionIds[(j.moved t).index]? = some v := by
  have hne : t ≠ j := fun heq => hv (Option.some.inj (ht.symm.trans (heq ▸ hj)))
  unfold transitionIds
  rw [transitions_removeNode_of_transition h call hj, ← List.eraseIdx_map, getElem?_eraseIdx_moved hne]
  exact ht

theorem held_removeNode_of_transition (m : Marking) (v : String) :
    net'.held m v = net.held m v := by
  unfold held tokensOn placeIndex placeIndex? placeIds
  rw [places_removeNode_of_transition h call hj]
  cases (net.places.map Place.id).idxOf? v <;> rfl

section Other

variable (hw : w ∈ net.transitionIds) (hne : w ≠ id) (m : Marking)
include hw hne

/-- No place starves on account of a flow that is gone: a flow of both transitions would join two
transitions. -/
theorem find?_starvesAt_removeNode :
    net'.flows.find? (net'.starvesAt m w) = net.flows.find? (net.starvesAt m w) := by
  have hheld := held_removeNode_of_transition h call hj m
  have hw' := (mem_transitionIds_removeNode_iff h call).2 ⟨hw, hne⟩
  rw [flows_removeNode h call]
  refine find?_filter_of_imp (fun f hf hkeep => ?_) fun f hf hgone => ?_
  · exact starvesAt_removeNode h call (fun v _ => hheld v) hw'
      (flows_removeNode h call ▸ List.mem_filter.2 ⟨hf, hkeep⟩)
  · refine Bool.eq_false_of_not_eq_true fun htrue =>
      notMem_placeIds h.wellFormed (List.mem_of_getElem? hj) ?_
    obtain ⟨htarget, -⟩ := starvesAt_iff.1 htrue
    obtain ⟨p, hp⟩ := exists_placeIndex?_source h hw hf htarget
    exact source_of_touches (by simpa using hgone) (htarget ▸ hne) ▸ mem_placeIds_of_placeIndex? hp

theorem find?_overflowsAt_removeNode :
    net'.flows.find? (net'.overflowsAt m w) = net.flows.find? (net.overflowsAt m w) := by
  have hheld := held_removeNode_of_transition h call hj m
  have hw' := (mem_transitionIds_removeNode_iff h call).2 ⟨hw, hne⟩
  rw [flows_removeNode h call]
  refine find?_filter_of_imp (fun f hf hkeep => ?_) fun f hf hgone => ?_
  · exact overflowsAt_removeNode h call (fun v _ => hheld v) hw'
      (flows_removeNode h call ▸ List.mem_filter.2 ⟨hf, hkeep⟩)
  · refine Bool.eq_false_of_not_eq_true fun htrue =>
      notMem_placeIds h.wellFormed (List.mem_of_getElem? hj) ?_
    obtain ⟨hsource, -⟩ := overflowsAt_iff.1 htrue
    obtain ⟨p, hp⟩ := exists_placeIndex?_target h hw hf hsource
    exact target_of_touches (by simpa using hgone) (hsource ▸ hne) ▸ mem_placeIds_of_placeIndex? hp

/-- A step is what it was without another transition. -/
theorem firing_removeNode_of_transition : net'.firing m w = net.firing m w := by
  have hheld := held_removeNode_of_transition h call hj m
  have hids : net'.placeIds = net.placeIds :=
    congrArg (List.map Place.id) (places_removeNode_of_transition h call hj)
  have hresult : net'.placeIds.map (net'.afterFiring m w) = net.placeIds.map (net.afterFiring m w) := by
    rw [← hids]
    exact List.map_congr_left fun v hv =>
      afterFiring_removeNode h call (fun v _ => hheld v) hv hne
  unfold firing
  rw [find?_starvesAt_removeNode h call hj hw hne, find?_overflowsAt_removeNode h call hj hw hne,
    hresult]
  simp only [hheld]

end Other

end Transition

end RemoveNode

/-! ## What a net does without a node -/

/-- Whichever way it is meant, a transition has a name. -/
theorem exists_name_of_resolve (h : net.WellFormed) (hr : net.resolve r = .ok t) :
    ∃ w, net.transitionIndex w = .ok t ∧ (r = .name w ∨ r = .number t) := by
  cases r with
  | number u =>
    obtain ⟨hlt, rfl⟩ := resolve_number_eq_ok_iff.1 hr
    rw [← length_transitionIds] at hlt
    exact ⟨_, (transitionIndex_eq_ok_iff h).2 (List.getElem?_eq_getElem hlt), .inr rfl⟩
  | name w =>
    have hindex := transitionIds_getElem?_of_transitionIndex? (resolve_name_eq_ok_iff.1 hr)
    exact ⟨w, (transitionIndex_eq_ok_iff h).2 hindex, .inl rfl⟩

/-- What is left of a net without one of its places: all that the other nodes are and do. Each of the
remaining places moves down by one number if it came after, and transitions keep theirs. Steps that were
possible still are, and lead to the same tokens on these places; new ones are only those for which the
place had too few tokens, or was given too many. -/
structure WithoutPlace (net : Net) (id : String) (p : PlaceId) (net' : Net) : Prop where
  places : net'.places = net.places.eraseIdx p.index
  transitions : net'.transitions = net.transitions
  flows : net'.flows = net.flows.filter fun f => !f.key.touches id
  placeIndex : ∀ v ≠ id, ∀ q, net.placeIndex v = .ok q → net'.placeIndex v = .ok (p.moved q)
  initialMarking : net'.initialMarking = net.initialMarking.without p
  fire : ∀ r m m', net.fire m r = .ok m' → net'.fire (m.without p) r = .ok (m'.without p)
  fireSequence : ∀ rs m m', net.fireSequence m rs = .ok m' →
    net'.fireSequence (m.without p) rs = .ok (m'.without p)
  fire_back : ∀ w t r m l, net.transitionIndex w = .ok t → r = .name w ∨ r = .number t →
    m.size = net.placeCount → ¬ net.Starves m w id → ¬ net.Overflows m w id →
      net'.fire (m.without p) r = .ok l → ∃ m', net.fire m r = .ok m' ∧ m'.without p = l

/-- What is left of a net without one of its transitions: all that the other nodes are and do. Each of the
remaining transitions moves down by one number if it came after, and gives the same marking or the same
fault from every marking. -/
structure WithoutTransition (net : Net) (id : String) (j : TransitionId) (net' : Net) : Prop where
  places : net'.places = net.places
  transitions : net'.transitions = net.transitions.eraseIdx j.index
  flows : net'.flows = net.flows.filter fun f => !f.key.touches id
  initialMarking : net'.initialMarking = net.initialMarking
  fire : ∀ w ≠ id, ∀ t, net.transitionIndex w = .ok t →
    net'.transitionIndex w = .ok (j.moved t) ∧
      ∀ m, net'.fire m (.name w) = net.fire m (.name w) ∧
        net'.fire m (.number (j.moved t)) = net.fire m (.number t)

theorem fire_eq_markingMismatch (hsize : m.size ≠ net.placeCount) :
    net.fire m r = .error (.markingMismatch net.placeCount m.size) := by
  unfold fire fireWithin checkMarking
  rw [if_neg hsize]
  rfl

section RemoveNode

variable (h : net.Built) (call : net.removeNode id = .ok (n, net'))
include h call

theorem fire_without (hp : net.placeIds[p.index]? = some id) (hfire : net.fire m r = .ok m') :
    net'.fire (m.without p) r = .ok (m'.without p) := by
  have hbuilt := h.removeNode call
  obtain ⟨hsize, t, hr, -⟩ := fireWithin_eq_ok_iff_resolve.1 hfire
  -- the flows speak of names, and transitions keep their numbers
  obtain ⟨w, hw, hmeant⟩ := exists_name_of_resolve h.wellFormed hr
  rw [fire_eq_firing h hsize hw hmeant] at hfire
  have hw' := transitionIndex_removeNode_of_place h call hp hw
  rw [fire_eq_firing hbuilt (size_without h call hp hsize) hw' hmeant]
  exact firing_without h call hp (transitionName_of_transitionIndex hw).2.2.2 hfire

/-- Without a place a sequence that was possible is, and it leads to the same tokens on the others. -/
theorem fireSequence_without (hp : net.placeIds[p.index]? = some id)
    (hfire : net.fireSequence m rs = .ok m') :
    net'.fireSequence (m.without p) rs = .ok (m'.without p) := by
  induction rs generalizing m with
  | nil => exact congrArg _ (congrArg (Marking.without · p) (Except.ok.inj hfire))
  | cons r rs ih =>
    obtain ⟨l, hfirst, hrest⟩ := fireSequenceWithin_cons_eq_ok_iff.1 hfire
    exact fireSequenceWithin_cons_eq_ok_iff.2 ⟨_, fire_without h call hp hfirst, ih hrest⟩

theorem withoutPlace_of_removeNode (hp : net.placeIds[p.index]? = some id) :
    net.WithoutPlace id p net' := by
  have hbuilt := h.removeNode call
  have hplaces := places_removeNode_of_place h call hp
  refine ⟨hplaces, transitions_removeNode_of_place h call hp, flows_removeNode h call,
    fun v hv q hq => ?_, ?_, fun _ _ _ => fire_without h call hp,
    fun _ _ _ => fireSequence_without h call hp,
    fun w t r m l hw hmeant hsize hstarve hoverflow hfire => ?_⟩
  · rw [placeIndex_eq_ok_iff hbuilt.wellFormed]
    exact placeIndex_removeNode_of_place h call hp hv ((placeIndex_eq_ok_iff h.wellFormed).1 hq)
  · unfold initialMarking Marking.ofCounts Marking.without
    rw [hplaces, List.eraseIdx_map, List.eraseIdx_map]
  · have hw' := transitionIndex_removeNode_of_place h call hp hw
    rw [fire_eq_firing hbuilt (size_without h call hp hsize) hw' hmeant] at hfire
    rw [fire_eq_firing h hsize hw hmeant]
    exact firing_of_firing_without h call hp (transitionName_of_transitionIndex hw).2.2.2 hfire
      hstarve hoverflow

theorem withoutTransition_of_removeNode (hj : net.transitionIds[j.index]? = some id) :
    net.WithoutTransition id j net' := by
  have hbuilt := h.removeNode call
  have hplaces := places_removeNode_of_transition h call hj
  refine ⟨hplaces, transitions_removeNode_of_transition h call hj, flows_removeNode h call, ?_,
    fun w hne t hw => ?_⟩
  · unfold initialMarking
    rw [hplaces]
  · have hw' : net'.transitionIndex w = .ok (j.moved t) :=
      (transitionIndex_eq_ok_iff hbuilt.wellFormed).2 (transitionIds_getElem?_moved h call hj hne
        ((transitionIndex_eq_ok_iff h.wellFormed).1 hw))
    have hmem := (transitionName_of_transitionIndex hw).2.2.2
    have hcount : net'.placeCount = net.placeCount := congrArg List.length hplaces
    refine ⟨hw', fun m => ?_⟩
    by_cases hsize : m.size = net.placeCount
    · have hsize' : m.size = net'.placeCount := hsize.trans hcount.symm
      rw [fire_eq_firing hbuilt hsize' hw' (.inl rfl), fire_eq_firing hbuilt hsize' hw' (.inr rfl),
        fire_eq_firing h hsize hw (.inl rfl), fire_eq_firing h hsize hw (.inr rfl),
        firing_removeNode_of_transition h call hj hmem hne]
      exact ⟨rfl, rfl⟩
    · have hsize' : m.size ≠ net'.placeCount := hcount ▸ hsize
      simp only [fire_eq_markingMismatch hsize', fire_eq_markingMismatch hsize, hcount, and_self]

end RemoveNode

/-- Removing a node leaves all that the other nodes are and do, in the net and in its tables. Without a
place, the markings are those of before but for its entry, and what was possible still is; without a
transition, the others do exactly what they did. -/
theorem removeNode_projects (h : net.Built) (id : String) :
    (∀ p, net.placeIndex id = .ok p → ∃ n net', net.removeNode id = .ok (n, net') ∧
      IndexedNet.removeNode id net.indexed = .ok n net'.indexed ∧ net.WithoutPlace id p net') ∧
    ∀ j, net.transitionIndex id = .ok j → ∃ n net', net.removeNode id = .ok (n, net') ∧
      IndexedNet.removeNode id net.indexed = .ok n net'.indexed ∧
        net.WithoutTransition id j net' := by
  have hcalled : ∀ kind, id ∈ idsOf kind net.graph.nodes → ∃ n net',
      net.removeNode id = .ok (n, net') ∧ IndexedNet.removeNode id net.indexed = .ok n net'.indexed := by
    intro kind hid
    obtain ⟨m, hm, hname, -⟩ := mem_idsOf.1 hid
    obtain ⟨n, net', hcall⟩ := exists_removeNode h.wellFormed ⟨m, hm, hname⟩
    exact ⟨n, net', hcall, by rw [IndexedNet.removeNode_indexed h.wellFormed, hcall]; rfl⟩
  refine ⟨fun p hp => ?_, fun j hj => ?_⟩
  · have hat := (placeIndex_eq_ok_iff h.wellFormed).1 hp
    obtain ⟨n, net', hcall, htables⟩ := hcalled true (placeIds_eq net ▸ List.mem_of_getElem? hat)
    exact ⟨n, net', hcall, htables, withoutPlace_of_removeNode h hcall hat⟩
  · have hat := (transitionIndex_eq_ok_iff h.wellFormed).1 hj
    obtain ⟨n, net', hcall, htables⟩ :=
      hcalled false (transitionIds_eq net ▸ List.mem_of_getElem? hat)
    exact ⟨n, net', hcall, htables, withoutTransition_of_removeNode h hcall hat⟩

/-- Without the place of its keepers, the lock floods by itself, and the basin and the sea move down;
without its flooding, it drains under the number that this had. -/
theorem removeNode_projects_lockNet :
    (∃ n net', lockNet.removeNode "keepers" = .ok (n, net') ∧ net'.placeIndex "sea" = .ok ⟨1⟩ ∧
      net'.fire ⟨[.finite 0, .omega]⟩ (.name "flood") = .ok ⟨[.finite 3, .omega]⟩) ∧
    ∃ n net', lockNet.removeNode "flood" = .ok (n, net') ∧ net'.transitionIndex "drain" = .ok ⟨0⟩ ∧
      ∀ m, net'.fire m (.number ⟨0⟩) = lockNet.fire m (.number ⟨1⟩) := by
  have hbuilt : lockNet.Built := built_ofScript _ _
  refine ⟨?_, ?_⟩
  · obtain ⟨n, net', hcall, -, hwithout⟩ := (removeNode_projects hbuilt "keepers").1 ⟨0⟩ rfl
    have hfire : lockNet.fire ⟨[.finite 2, .finite 0, .omega]⟩ (.name "flood") =
        .ok ⟨[.finite 1, .finite 3, .omega]⟩ := by decide
    exact ⟨n, net', hcall, hwithout.placeIndex "sea" (by decide) ⟨2⟩ rfl, hwithout.fire _ _ _ hfire⟩
  · obtain ⟨n, net', hcall, -, hwithout⟩ := (removeNode_projects hbuilt "flood").2 ⟨0⟩ rfl
    obtain ⟨hindex, hfire⟩ := hwithout.fire "drain" (by decide) ⟨1⟩ rfl
    exact ⟨n, net', hcall, hindex, fun m => (hfire m).2⟩

end Net

end PetriNets
