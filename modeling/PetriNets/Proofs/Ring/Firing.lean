import PetriNets.Proofs.Ring.Net

/-!
# The token of a ring

A ring has one token, which walks around: where it is on the `k`-th place, the `k`-th transition can fire
and no other one, and brings it to the next place (`step_iff`). So the markings that can be reached are
those with one token on one of the places (`mem_reachable_iff`), and the transitions in order bring the token
back to where it was (`fireSequence_lap`).
-/

namespace PetriNets

variable {n i j k : Nat} {net : Net} {cap : Capacity} {m : Marking} {t : TransitionId}

theorem flatMap_ite_eq {α β : Type} [DecidableEq α] {xs : List α} {a : α} {ys : List β}
    (h : xs.Nodup) (ha : a ∈ xs) : (xs.flatMap fun b => if b = a then ys else []) = ys := by
  obtain ⟨before, after, rfl⟩ := List.append_of_mem ha
  obtain ⟨hbefore, hafter⟩ : a ∉ before ∧ a ∉ after := by
    rw [List.nodup_middle, List.nodup_cons, List.mem_append, not_or] at h
    exact h.1
  have hnil : ∀ zs : List α, a ∉ zs → (zs.flatMap fun b => if b = a then ys else []) = [] :=
    fun zs hzs => List.flatMap_eq_nil_iff.2 fun b hb => if_neg fun heq : b = a => hzs (heq ▸ hb)
  rw [List.flatMap_append, List.flatMap_cons, if_pos rfl, hnil before hbefore, hnil after hafter,
    List.nil_append, List.append_nil]

theorem Capacity.holds_word_one : Capacity.word.holds 1 = true := rfl

/-- One token on the `k`-th place of a ring of `n`. -/
def ringMarking (n k : Nat) : Marking :=
  .ofCounts ((List.range n).map fun i => if i = k then 1 else 0)

theorem size_ringMarking (n k : Nat) : (ringMarking n k).size = n := by
  simp [ringMarking, Marking.ofCounts, Marking.size]

theorem count_ringMarking (hk : k < n) (p : PlaceId) :
    (ringMarking n k).count p = .finite (if p.index = k then 1 else 0) := by
  unfold ringMarking Marking.ofCounts Marking.count
  by_cases hp : p.index < n
  · simp [hp]
  · have hne : p.index ≠ k := by omega
    simp [hp, hne, Token.zero]

theorem ringMarking_injOn (hi : i < n) (hj : j < n) (h : ringMarking n i = ringMarking n j) : i = j := by
  have hcount := congrArg (Marking.count · ⟨i⟩) h
  simp only [count_ringMarking hi, count_ringMarking hj, Token.finite.injEq] at hcount
  by_contra hne
  simp [hne] at hcount

/-- What is on the places while the token is on its way. -/
theorem count_set_ringMarking (hk : k < n) (p : PlaceId) :
    ((ringMarking n k).set ⟨k⟩ (.finite 0)).count p = .finite 0 := by
  by_cases hp : p = ⟨k⟩
  · rw [hp, Marking.count_set_self (by rwa [size_ringMarking])]
  · have hne : p.index ≠ k := fun h => hp (congrArg Id.mk h)
    rw [Marking.count_set_of_ne (Ne.symm hp), count_ringMarking hk, if_neg hne]

theorem set_set_ringMarking (hj : j < n) (hk : k < n) :
    ((ringMarking n k).set ⟨k⟩ (.finite 0)).set ⟨j⟩ (.finite 1) = ringMarking n j := by
  have hsize : ((ringMarking n k).set ⟨k⟩ (.finite 0)).size = n := by
    rw [Marking.size_set, size_ringMarking]
  refine Marking.ext_count (by rw [Marking.size_set, hsize, size_ringMarking]) fun p _ => ?_
  rw [count_ringMarking hj]
  by_cases hp : p = ⟨j⟩
  · rw [hp, Marking.count_set_self (hsize.symm ▸ hj), if_pos rfl]
  · have hne : p.index ≠ j := fun h => hp (congrArg Id.mk h)
    rw [Marking.count_set_of_ne (Ne.symm hp), count_set_ringMarking hk, if_neg hne]

/-- A transition that brings one token from one place to another can fire just where the token is. -/
theorem fire_ringMarking_eq_ok_iff (hcap : cap.holds 1 = true) (hj : j < n) (hk : k < n) :
    Arcs.fire cap ⟨[(⟨i⟩, 1)], [(⟨j⟩, 1)]⟩ (ringMarking n k) = .ok m ↔
      i = k ∧ m = ringMarking n j := by
  rw [Arcs.fire_eq_ok_cases]
  by_cases hi : i = k
  · subst hi
    have htake : Row.take [(⟨i⟩, 1)] (ringMarking n i) =
        .ok ((ringMarking n i).set ⟨i⟩ (.finite 0)) := by
      simp [Row.take, count_ringMarking hk, Token.sub?]
    have hgive : Row.give cap [(⟨j⟩, 1)] ((ringMarking n i).set ⟨i⟩ (.finite 0)) =
        .ok (ringMarking n j) := by
      simp [Row.give, count_set_ringMarking hk, Token.add?, hcap, set_set_ringMarking hj hk]
    constructor
    · rintro ⟨l, hl, hm⟩
      obtain rfl := Except.ok.inj (htake.symm.trans hl)
      exact ⟨rfl, (Except.ok.inj (hgive.symm.trans hm)).symm⟩
    · rintro ⟨-, rfl⟩
      exact ⟨_, htake, hgive⟩
  · refine iff_of_false ?_ fun h => hi h.1
    rintro ⟨l, hl, -⟩
    simp [Row.take, count_ringMarking hk, hi, Token.sub?] at hl

namespace RingPart

variable (h : RingPart n n n net)
include h

theorem placeCount_eq : net.placeCount = n := by
  unfold Net.placeCount
  rw [h.places, List.length_map, List.length_range]

theorem transitionCount_eq : net.transitionCount = n := by
  unfold Net.transitionCount
  rw [h.transitions, List.length_map, List.length_range]

theorem length_flows : net.flows.length = 2 * n := by
  rw [h.flows, List.length_flatMap]
  simp [ringFlows, Nat.mul_comm]

theorem initialMarking_eq : net.initialMarking = ringMarking n 0 := by
  unfold Net.initialMarking
  rw [h.places, List.map_map]
  rfl

theorem placeIndex?_eq (hi : i < n) : net.placeIndex? (ringPlace i).id = some ⟨i⟩ := by
  rw [Net.placeIndex?_eq_some_iff h.built.wellFormed, h.placeIds_eq]
  simp [hi]

theorem transitionName_eq (hi : i < n) : net.transitionName ⟨i⟩ = (ringTransition i).id := by
  unfold Net.transitionName
  rw [h.transitionIds_eq]
  simp [hi]

/-- Of the flows of all transitions, those of one are left. -/
theorem filter_flows (hi : i < n) {test : Flow → Bool} {f : Flow}
    (htest : ∀ k, (ringFlows n k).filter test = if k = i then [f] else []) :
    net.flows.filter test = [f] := by
  rw [h.flows, List.filter_flatMap]
  simp only [htest]
  exact flatMap_ite_eq List.nodup_range (List.mem_range.2 hi)

theorem arcs_eq (hi : i < n) :
    net.arcsNamed (ringTransition i).id = ⟨[(⟨i⟩, 1)], [(⟨(i + 1) % n⟩, 1)]⟩ := by
  have hwell := h.built.wellFormed
  have hother : ∀ k, (ringTransition k).id = (ringTransition i).id ↔ k = i :=
    fun k => id_ringTransition_injective.eq_iff
  have hbefore : (net.flows.filter fun f => f.key.target = (ringTransition i).id) =
      [.between (ringPlace i).id (ringTransition i).id 1] := by
    refine h.filter_flows hi fun k => ?_
    by_cases hk : k = i <;> simp [ringFlows, Flow.between, hother, id_ringPlace_ne, hk]
  have hafter : (net.flows.filter fun f => f.key.source = (ringTransition i).id) =
      [.between (ringTransition i).id (ringPlace ((i + 1) % n)).id 1] := by
    refine h.filter_flows hi fun k => ?_
    by_cases hk : k = i <;> simp [ringFlows, Flow.between, hother, id_ringPlace_ne, hk]
  have hpre := hwell.pre_arcsNamed (ringTransition i).id
  have hpost := hwell.post_arcsNamed (ringTransition i).id
  have hnext : (i + 1) % n < n := Nat.mod_lt _ (Nat.zero_lt_of_lt hi)
  rw [hbefore] at hpre
  rw [hafter] at hpost
  simp only [Net.row, Flow.between, List.filterMap_cons, h.placeIndex?_eq hi] at hpre
  simp only [Net.row, Flow.between, List.filterMap_cons, h.placeIndex?_eq hnext] at hpost
  calc net.arcsNamed (ringTransition i).id
      = ⟨(net.arcsNamed (ringTransition i).id).pre, (net.arcsNamed (ringTransition i).id).post⟩ := rfl
    _ = ⟨[(⟨i⟩, 1)], [(⟨(i + 1) % n⟩, 1)]⟩ := by rw [hpre, hpost]; rfl

/-- The only step from where the token is takes it to the next place. -/
theorem step_iff (hcap : cap.holds 1 = true) (hk : k < n) :
    net.incidence.Step cap (ringMarking n k) t m ↔ t = ⟨k⟩ ∧ m = ringMarking n ((k + 1) % n) := by
  unfold Incidence.Step
  simp only [Net.arcs_get?_eq_some_iff, h.transitionCount_eq]
  have hnext : ∀ i < n, (i + 1) % n < n := fun i hi => Nat.mod_lt _ (Nat.zero_lt_of_lt hi)
  obtain ⟨i⟩ := t
  constructor
  · rintro ⟨_, ⟨hi, rfl⟩, hfire⟩
    rw [h.transitionName_eq hi, h.arcs_eq hi, fire_ringMarking_eq_ok_iff hcap (hnext i hi) hk] at hfire
    obtain ⟨rfl, rfl⟩ := hfire
    exact ⟨rfl, rfl⟩
  · rintro ⟨ht, rfl⟩
    obtain rfl : i = k := congrArg Id.index ht
    refine ⟨_, ⟨hk, rfl⟩, ?_⟩
    rw [h.transitionName_eq hk, h.arcs_eq hk, fire_ringMarking_eq_ok_iff hcap (hnext i hk) hk]
    exact ⟨rfl, rfl⟩

/-- The first `k` transitions take the token to the `k`-th place, and all of them back to the first. -/
theorem run_upTo (hcap : cap.holds 1 = true) (hk : k ≤ n) :
    net.incidence.Run cap (ringMarking n 0) (Id.upTo k) (ringMarking n (k % n)) := by
  induction k with
  | zero =>
    rw [Nat.zero_mod]
    exact .nil _
  | succ k ih =>
    have hlt : k < n := hk
    have hbefore := ih (Nat.le_of_lt hlt)
    rw [Nat.mod_eq_of_lt hlt] at hbefore
    unfold Id.upTo at hbefore ⊢
    rw [List.range_succ, List.map_append, List.map_singleton, Incidence.Run.concat_iff]
    exact ⟨_, hbefore, (h.step_iff hcap hlt).2 ⟨rfl, rfl⟩⟩

theorem exists_eq_of_run (hn : 0 < n) {ts : List TransitionId}
    (hrun : net.incidence.Run none (ringMarking n 0) ts m) : ∃ k < n, m = ringMarking n k := by
  induction ts using List.reverseRecOn generalizing m with
  | nil =>
    cases hrun
    exact ⟨0, hn, rfl⟩
  | append_singleton ts t ih =>
    obtain ⟨l, hbefore, hstep⟩ := Incidence.Run.concat_iff.1 hrun
    obtain ⟨k, hk, rfl⟩ := ih hbefore
    obtain ⟨-, rfl⟩ := (h.step_iff (Capacity.holds_none 1) hk).1 hstep
    exact ⟨_, Nat.mod_lt _ hn, rfl⟩

theorem mem_reachable_iff (hn : 0 < n) : m ∈ net.reachable ↔ ∃ k < n, m = ringMarking n k := by
  constructor
  · rintro ⟨ts, hts⟩
    rw [Net.reaches_iff, h.initialMarking_eq] at hts
    exact h.exists_eq_of_run hn hts
  · rintro ⟨k, hk, rfl⟩
    refine ⟨Id.upTo k, Net.reaches_iff.2 ?_⟩
    have hrun := h.run_upTo (Capacity.holds_none 1) (Nat.le_of_lt hk)
    rwa [Nat.mod_eq_of_lt hk, ← h.initialMarking_eq] at hrun

theorem resolve_name_eq (hi : i < n) : net.resolve (.name (ringTransition i).id) = .ok ⟨i⟩ := by
  rw [Net.resolve_name_eq_ok_iff, ← h.transitionName_eq hi]
  exact Net.transitionIndex?_transitionName h.built.wellFormed (h.transitionCount_eq.symm ▸ hi)

/-- One lap: the transitions in order, each of them by its name. -/
theorem fireSequence_lap : net.fireSequence net.initialMarking
    ((List.range n).map fun i => .name (ringTransition i).id) = .ok net.initialMarking := by
  have hnumbers : net.fireSequenceWithin .word net.initialMarking
      ((Id.upTo n).map TransitionRef.number) = .ok net.initialMarking := by
    rw [Net.fireSequenceWithin_eq_ok_iff net.size_initialMarking, h.initialMarking_eq]
    have hrun := h.run_upTo Capacity.holds_word_one (Nat.le_refl n)
    rwa [Nat.mod_self] at hrun
  refine Eq.trans (Net.fireSequenceFrom_congr ?_) hnumbers
  unfold Id.upTo
  rw [List.map_map, List.map_map, List.map_map]
  refine List.map_congr_left fun i hi => ?_
  have hlt : i < net.transitionCount := h.transitionCount_eq.symm ▸ List.mem_range.1 hi
  exact (h.resolve_name_eq (List.mem_range.1 hi)).trans
    (Net.resolve_number_eq_ok_iff.2 ⟨hlt, rfl⟩).symm

end RingPart

end PetriNets
