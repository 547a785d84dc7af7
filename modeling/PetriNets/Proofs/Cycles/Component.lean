import PetriNets.Cycles.Search
import PetriNets.Proofs.Cycles.Walk

/-!
# Strongly connected components

Two states are connected if walks lead from either to the other. A walk from one to the other goes through
connected states only (`Connected.walkWithin_iff`).

`ListsComponents` says what the search for cycles needs of a list of components, and `componentOf` is read
under it: states have the same number if they are connected (`ListsComponents.componentOf_eq_iff`), and a
component with a closed walk is cyclic (`ListsComponents.isCyclic_of_walk`). The system's own list is one of
this kind (`WellFormed.listsComponents`).
-/

namespace PetriNets

namespace TransitionSystem

/-- Walks lead from either state to the other. -/
def Connected (ts : TransitionSystem) (v w : String) : Prop :=
  (∃ steps, ts.Walk v steps w) ∧ ∃ steps, ts.Walk w steps v

/-- A list of the strongly connected components: every state stands there once, and in one component
with the states that it is connected with. -/
structure ListsComponents (ts : TransitionSystem) (components : List (List String)) : Prop where
  perm : components.flatten.Perm ts.stateIds
  connected : ∀ c ∈ components, ∀ v ∈ c, ∀ w, w ∈ c ↔ ts.Connected v w

variable {ts : TransitionSystem} {components : List (List String)} {c ids : List String}
  {u v w : String} {steps : List WalkStep} {n : Nat}

namespace Connected

theorem refl (v : String) : ts.Connected v v := ⟨⟨[], .nil v⟩, [], .nil v⟩

theorem symm (h : ts.Connected v w) : ts.Connected w v := ⟨h.2, h.1⟩

theorem trans (huv : ts.Connected u v) (hvw : ts.Connected v w) : ts.Connected u w := by
  simp only [Connected, exists_walk_iff] at huv hvw ⊢
  exact ⟨huv.1.trans hvw.1, hvw.2.trans huv.2⟩

/-- A state on the way to a connected one. -/
theorem of_arc {l : String} (h : ts.Connected u w) (hwalk : ∃ steps, ts.Walk u steps v)
    (harc : ts.HasArc v l w) : ts.Connected u v := by
  obtain ⟨back, hback⟩ := h.2
  exact ⟨hwalk, (v, l) :: back, .cons harc hback⟩

/-- A walk to a connected state goes through connected states only. -/
theorem walkWithin_iff {within : String → Bool} (hwithin : ∀ u, within u = true ↔ ts.Connected v u)
    (h : ts.Connected v w) : ts.WalkWithin within v steps w ↔ ts.Walk v steps w := by
  refine ⟨WalkWithin.walk, fun hwalk => ?_⟩
  induction steps using List.reverseRecOn generalizing w with
  | nil => exact walkWithin_nil_iff.2 ⟨walk_nil_iff.1 hwalk, (hwithin w).2 h⟩
  | append_singleton steps step ih =>
    obtain ⟨hsteps, harc⟩ := walk_concat_iff.1 hwalk
    have hstep : ts.Connected v step.1 := h.of_arc ⟨steps, hsteps⟩ harc
    exact walkWithin_concat_iff.2 ⟨ih hstep hsteps, harc, (hwithin w).2 h⟩

end Connected

theorem WellFormed.mem_of_connected (h : ts.WellFormed) (hv : v ∈ ts.stateIds)
    (hvw : ts.Connected v w) : w ∈ ts.stateIds := by
  obtain ⟨steps, hwalk⟩ := hvw.1
  exact h.mem_of_walk hwalk hv

/-! ## Numbers of components -/

theorem isSome_componentOf : (componentOf components v).isSome = true ↔ v ∈ components.flatten := by
  simp [componentOf, List.findIdx?_isSome, and_comm]

/-- Where no state stands twice, the number tells the component. -/
theorem componentOf_eq_some_iff (hnodup : components.flatten.Nodup) :
    componentOf components v = some n ↔ ∃ c, components[n]? = some c ∧ v ∈ c := by
  unfold componentOf
  rw [List.findIdx?_eq_some_iff_getElem]
  constructor
  · rintro ⟨hn, hv, -⟩
    exact ⟨components[n], List.getElem?_eq_getElem hn, by simpa using hv⟩
  · rintro ⟨c, hc, hv⟩
    obtain ⟨hn, rfl⟩ := List.getElem?_eq_some_iff.1 hc
    refine ⟨hn, by simpa using hv, fun m hm => ?_⟩
    have hdisjoint := List.pairwise_iff_getElem.1 (List.nodup_flatten.1 hnodup).2 m n (by omega) hn hm
    simpa using fun hvm => hdisjoint hvm hv

namespace ListsComponents

variable (h : ts.ListsComponents components)
include h

theorem nodup (hts : ts.WellFormed) : components.flatten.Nodup :=
  h.perm.nodup_iff.2 hts.graph.nodup_nodeIds

theorem exists_componentOf (hts : ts.WellFormed) (hv : v ∈ ts.stateIds) :
    ∃ n c, componentOf components v = some n ∧ components[n]? = some c ∧ v ∈ c := by
  have hsome := isSome_componentOf.2 (h.perm.mem_iff.2 hv)
  obtain ⟨n, hn⟩ := Option.isSome_iff_exists.1 hsome
  obtain ⟨c, hc, hvc⟩ := (componentOf_eq_some_iff (h.nodup hts)).1 hn
  exact ⟨n, c, hn, hc, hvc⟩

theorem componentOf_eq_iff (hts : ts.WellFormed) (hv : componentOf components v = some n) :
    componentOf components w = some n ↔ ts.Connected v w := by
  have hnumber := fun u => componentOf_eq_some_iff (h.nodup hts) (v := u) (n := n)
  obtain ⟨c, hc, hvc⟩ := (hnumber v).1 hv
  rw [hnumber w, ← h.connected c (List.mem_of_getElem? hc) v hvc w, hc]
  simp

/-- A closed walk stays in a component, which is cyclic. -/
theorem isCyclic_of_walk (hts : ts.WellFormed) (hc : c ∈ components) (hv : v ∈ c)
    (hwalk : ts.Walk v steps v) (hne : steps ≠ []) : ts.isCyclic c = true := by
  obtain ⟨l, w, rest, rfl, harc, hrest⟩ := hwalk.exists_cons hne
  have hconnected : ts.Connected v w := ⟨⟨[(v, l)], .cons harc (.nil w)⟩, rest, hrest⟩
  have hw := (h.connected c hc v hv w).2 hconnected
  unfold isCyclic
  rw [Bool.or_eq_true, decide_eq_true_eq]
  by_cases hlength : 1 < c.length
  · exact .inl hlength
  · obtain ⟨x, rfl⟩ : ∃ x, c = [x] := by
      apply List.length_eq_one_iff.1
      have := List.length_pos_of_mem hv
      omega
    obtain rfl := List.mem_singleton.1 hv
    obtain rfl := List.mem_singleton.1 hw
    right
    simpa using hts.mem_successors_iff.2 ⟨l, harc⟩

end ListsComponents

/-! ## The system's own components -/

/-- How far the list of components has come: it covers the states in `ids`. -/
structure Covers (ts : TransitionSystem) (ids : List String) (found : List (List String)) : Prop where
  covered : ∀ v ∈ ids, v ∈ found.flatten
  nodup : found.flatten.Nodup
  connected : ∀ c ∈ found, ∃ v ∈ ts.stateIds, ∀ w, w ∈ c ↔ ts.Connected v w

namespace WellFormed

variable (h : ts.WellFormed)
include h

theorem mem_component_iff (hv : v ∈ ts.stateIds) : w ∈ ts.component v ↔ ts.Connected v w := by
  unfold component Connected
  rw [List.mem_filter, List.contains_iff_mem, h.mem_breadthFirst_successors_iff hv,
    h.mem_breadthFirst_predecessors_iff hv, exists_walk_iff, exists_walk_iff]

/-- One more state. -/
theorem covers_next (hcovers : ts.Covers ids components) (hv : v ∈ ts.stateIds) :
    ts.Covers (ids ++ [v]) (if (componentOf components v).isSome then components
      else components ++ [ts.component v]) := by
  split
  · next hsome =>
    refine ⟨fun w hw => ?_, hcovers.nodup, hcovers.connected⟩
    rcases List.mem_append.1 hw with hw | hw
    · exact hcovers.covered w hw
    · exact List.mem_singleton.1 hw ▸ isSome_componentOf.1 hsome
  · next hnone =>
    have hnew : v ∉ components.flatten := mt isSome_componentOf.2 hnone
    have hmem := fun w => h.mem_component_iff (w := w) hv
    refine ⟨fun w hw => ?_, ?_, fun c hc => ?_⟩
    · simp only [List.flatten_append, List.flatten_singleton]
      rcases List.mem_append.1 hw with hw | hw
      · exact List.mem_append_left _ (hcovers.covered w hw)
      · rw [List.mem_singleton.1 hw]
        exact List.mem_append_right _ ((hmem v).2 (.refl v))
    · simp only [List.flatten_append, List.flatten_singleton]
      refine hcovers.nodup.append (nodup_breadthFirst.filter _) fun w hold hw => hnew ?_
      -- An earlier component with a state of the new one would contain `v`.
      obtain ⟨c, hc, hwc⟩ := List.mem_flatten.1 hold
      obtain ⟨u, -, hu⟩ := hcovers.connected c hc
      have huv : ts.Connected u v := ((hu w).1 hwc).trans ((hmem w).1 hw).symm
      exact List.mem_flatten.2 ⟨c, hc, (hu v).2 huv⟩
    · rcases List.mem_append.1 hc with hc | hc
      · exact hcovers.connected c hc
      · exact ⟨v, hv, List.mem_singleton.1 hc ▸ hmem⟩

theorem covers_components : ts.Covers ts.stateIds ts.components := by
  have hprefix : ∀ ids ⊆ ts.stateIds, ts.Covers ids (ids.foldl (fun found id =>
      if (componentOf found id).isSome then found else found ++ [ts.component id]) []) := by
    intro ids
    induction ids using List.reverseRecOn with
    | nil => exact fun _ => ⟨nofun, List.nodup_nil, nofun⟩
    | append_singleton ids v ih =>
      intro hsub
      rw [List.foldl_concat]
      have hids : ids ⊆ ts.stateIds := fun w hw => hsub (List.mem_append_left _ hw)
      exact h.covers_next (ih hids) (hsub (List.mem_append_right _ List.mem_cons_self))
  exact hprefix ts.stateIds (List.Subset.refl _)

/-- The system's own list is one of its strongly connected components. -/
theorem listsComponents : ts.ListsComponents ts.components := by
  have hcovers := h.covers_components
  refine ⟨?_, fun c hc v hv w => ?_⟩
  · refine (List.perm_ext_iff_of_nodup hcovers.nodup h.graph.nodup_nodeIds).2 fun w => ?_
    refine ⟨fun hw => ?_, hcovers.covered w⟩
    obtain ⟨c, hc, hw⟩ := List.mem_flatten.1 hw
    obtain ⟨v, hv, hmem⟩ := hcovers.connected c hc
    exact h.mem_of_connected hv ((hmem w).1 hw)
  · obtain ⟨u, -, hmem⟩ := hcovers.connected c hc
    have huv := (hmem v).1 hv
    exact ⟨fun hw => huv.symm.trans ((hmem w).1 hw), fun hvw => (hmem w).2 (huv.trans hvw)⟩

end WellFormed

end TransitionSystem

end PetriNets
