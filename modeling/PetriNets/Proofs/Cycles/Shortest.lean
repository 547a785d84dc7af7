import PetriNets.Proofs.Cycles.Search

/-!
# The closed walks that a search finds

When a search has ended, a state is noted at its distance unless it is further away than the states from
which arcs lead back (`Searched.exists_depth_le`). So the walks put together from the last steps noted
are the shortest ones through allowed states (`Searched.mem_shortestWalks_iff`), and with the arcs back they
are the closed walks that are as short as any (`Searched.mem_closedWalks_within_iff`). If the states of a
component are allowed these are all of them (`Searched.mem_closedWalks_iff`).
-/

namespace PetriNets

namespace CycleSearch

open TransitionSystem (walkWithin_nil_iff walkWithin_concat_iff)

/-- No further away than the states from which arcs lead back. -/
def Near (s : CycleSearch) (k : Nat) : Prop := ∀ c, s.closedAt = some c → k ≤ c

variable {ts : TransitionSystem} {start v : String} {within : String → Bool}
  {done : List (String × Nat)} {s : CycleSearch} {step : WalkStep} {steps : List WalkStep} {k : Nat}

theorem Near.of_le {j : Nat} (h : s.Near k) (hle : j ≤ k) : s.Near j :=
  fun c hc => Nat.le_trans hle (h c hc)

/-- An arc that has been followed is one of the system. -/
theorem mem_arcs_of_mem (hts : ts.WellFormed) {a : Arc}
    (ha : a ∈ done.flatMap fun e => ts.outgoing e.1) : a ∈ ts.arcs := by
  obtain ⟨e, -, ha⟩ := List.mem_flatMap.1 ha
  rw [hts.outgoing_eq] at ha
  exact List.mem_of_mem_filter ha

theorem hasArc_of_mem (hts : ts.WellFormed) {a : Arc}
    (ha : a ∈ done.flatMap fun e => ts.outgoing e.1) : ts.HasArc a.key.source a.label a.key.target :=
  hts.hasArc_iff.2 ⟨a, mem_arcs_of_mem hts ha, rfl, rfl, rfl⟩

namespace Searched

variable (hts : ts.WellFormed) (h : Searched ts start within done s)

include h in
theorem allowed_of_mem (hk : (v, k) ∈ s.depths) : within v = true := by
  obtain ⟨steps, hwalk, -⟩ := h.searching.walk v k hk
  exact hwalk.end_mem

include h in
theorem eq_start_of_mem (hk : (v, 0) ∈ s.depths) : v = start := by
  obtain ⟨steps, hwalk, hlength⟩ := h.searching.walk v 0 hk
  rw [List.length_eq_zero_iff.1 hlength] at hwalk
  exact (walkWithin_nil_iff.1 hwalk).1.symm

include h in
theorem ne_start_of_mem (hk : (v, k + 1) ∈ s.depths) : v ≠ start := by
  rintro rfl
  have hzero := depth_unique h.searching.nodup hk h.searching.start_mem
  omega

include hts h

/-- The arcs that leave a state which is near enough have been followed. -/
theorem exists_followed (hsource : (step.1, k) ∈ s.depths) (hnear : s.Near k)
    (harc : ts.HasArc step.1 step.2 v) :
    ∃ a ∈ done.flatMap fun e => ts.outgoing e.1, a.key.target = v ∧ (a.key.source, a.label) = step := by
  obtain ⟨a, ha, hstep, hlabel, rfl⟩ := hts.hasArc_iff.1 harc
  have hdone : (step.1, k) ∈ done := by
    rcases h.ended _ hsource with hdone | ⟨c, hc, hlt⟩
    · exact hdone
    · exact absurd (hnear c hc) (Nat.not_le_of_lt hlt)
  refine ⟨a, List.mem_flatMap.2 ⟨_, hdone, ?_⟩, rfl, Prod.ext hstep hlabel⟩
  rw [hts.outgoing_eq]
  exact List.mem_filter.2 ⟨ha, decide_eq_true hstep⟩

/-- A last step of a closed walk. -/
theorem closing_spec (hstep : step ∈ s.closing) : ∃ c, s.closedAt = some c ∧
    (step.1, c) ∈ s.depths ∧ s.Near c ∧ ts.HasArc step.1 step.2 start := by
  obtain ⟨c, hc, hdepth⟩ := h.searching.closedAt step hstep
  obtain ⟨a, ha, rfl, rfl⟩ := (h.searching.closing step).1 hstep
  have hnear : s.Near c := fun d hd => Nat.le_of_eq (Option.some.inj (hc.symm.trans hd))
  exact ⟨c, hc, hdepth, hnear, hasArc_of_mem hts ha⟩

/-- An arc leads one step further at most. -/
theorem exists_next (hsource : (step.1, k) ∈ s.depths) (hnear : s.Near k)
    (harc : ts.HasArc step.1 step.2 v) (hv : within v = true) : ∃ j ≤ k + 1, (v, j) ∈ s.depths := by
  obtain ⟨a, ha, rfl, rfl⟩ := h.exists_followed hts hsource hnear harc
  by_cases htarget : a.key.target = start
  · exact ⟨0, Nat.zero_le _, htarget ▸ h.searching.start_mem⟩
  · obtain ⟨i, hi, hnext⟩ := h.searching.followed a ha
    obtain rfl := depth_unique h.searching.nodup hi hsource
    exact hnext htarget hv

/-- A walk through allowed states is at least as long as the distance noted. -/
theorem exists_depth_le (hwalk : ts.WalkWithin within start steps v)
    (hnear : s.Near (steps.length - 1)) : ∃ k ≤ steps.length, (v, k) ∈ s.depths := by
  induction steps using List.reverseRecOn generalizing v with
  | nil =>
    obtain ⟨rfl, -⟩ := walkWithin_nil_iff.1 hwalk
    exact ⟨0, Nat.le_refl 0, h.searching.start_mem⟩
  | append_singleton steps step ih =>
    obtain ⟨hsteps, harc, hv⟩ := walkWithin_concat_iff.1 hwalk
    rw [List.length_append, List.length_singleton] at hnear ⊢
    rw [Nat.add_sub_cancel] at hnear
    obtain ⟨k, hle, hk⟩ := ih hsteps (hnear.of_le (Nat.sub_le _ 1))
    obtain ⟨j, hj, hdepth⟩ := h.exists_next hts hk (hnear.of_le hle) harc hv
    exact ⟨j, by omega, hdepth⟩

/-- No walk through allowed states is shorter than the distance noted. -/
theorem le_length (hk : (v, k) ∈ s.depths) (hnear : s.Near k)
    (hwalk : ts.WalkWithin within start steps v) : k ≤ steps.length := by
  by_contra hshort
  obtain ⟨j, hj, hdepth⟩ := h.exists_depth_le hts hwalk (hnear.of_le (by omega))
  have heq := depth_unique h.searching.nodup hk hdepth
  omega

/-- The last steps noted for a state are the arcs from states that are one step nearer. -/
theorem mem_arrivals_iff (hk : (v, k + 1) ∈ s.depths) (hnear : s.Near k) :
    (v, step) ∈ s.arrivals ↔ (step.1, k) ∈ s.depths ∧ ts.HasArc step.1 step.2 v := by
  rw [h.searching.arrivals]
  constructor
  · rintro ⟨-, -, ⟨a, ha, rfl, rfl⟩, j, hj, hj'⟩
    have heq := depth_unique h.searching.nodup hj' hk
    obtain rfl : j = k := by omega
    exact ⟨hj, hasArc_of_mem hts ha⟩
  · rintro ⟨hstep, harc⟩
    exact ⟨h.ne_start_of_mem hk, h.allowed_of_mem hk, h.exists_followed hts hstep hnear harc, k, hstep,
      hk⟩

/-- The walks put together are those that are as long as the distance noted. -/
theorem mem_shortestWalks_iff (hk : (v, k) ∈ s.depths) (hnear : s.Near k) :
    steps ∈ s.shortestWalks start k v ↔ ts.WalkWithin within start steps v ∧ steps.length = k := by
  induction k generalizing v steps with
  | zero =>
    obtain rfl := h.eq_start_of_mem hk
    unfold shortestWalks
    rw [if_pos rfl, List.mem_singleton, List.length_eq_zero_iff]
    refine ⟨?_, And.right⟩
    rintro rfl
    exact ⟨walkWithin_nil_iff.2 ⟨rfl, h.allowed_of_mem hk⟩, rfl⟩
  | succ k ih =>
    have hnear' : s.Near k := hnear.of_le (Nat.le_succ k)
    unfold shortestWalks
    rw [if_neg (h.ne_start_of_mem hk)]
    simp only [List.mem_flatMap, List.mem_map, mem_predecessors_iff, h.mem_arrivals_iff hts hk hnear']
    constructor
    · rintro ⟨step, ⟨hdepth, harc⟩, walk, hwalk, rfl⟩
      obtain ⟨hwalk, hlength⟩ := (ih hdepth hnear').1 hwalk
      refine ⟨walkWithin_concat_iff.2 ⟨hwalk, harc, h.allowed_of_mem hk⟩, ?_⟩
      rw [List.length_append, hlength, List.length_singleton]
    · rintro ⟨hwalk, hlength⟩
      obtain rfl | ⟨walk, step, rfl⟩ := List.eq_nil_or_concat' steps
      · cases hlength
      · obtain ⟨hsteps, harc, hv⟩ := walkWithin_concat_iff.1 hwalk
        obtain rfl : walk.length = k := by simpa using hlength
        obtain ⟨i, hi, hdepth⟩ := h.exists_depth_le hts hsteps (hnear'.of_le (Nat.sub_le _ 1))
        obtain ⟨j, hj, hnext⟩ := h.exists_next hts hdepth (hnear'.of_le hi) harc hv
        have heq := depth_unique h.searching.nodup hnext hk
        obtain rfl : i = walk.length := by omega
        exact ⟨step, ⟨hdepth, harc⟩, walk, (ih hdepth hnear').2 ⟨hsteps, rfl⟩, rfl⟩

/-! ## Closed walks -/

/-- The last step of a closed walk is noted if it leaves a state near enough. -/
theorem mem_closing (hwalk : ts.WalkWithin within start (steps ++ [step]) start)
    (hnear : s.Near steps.length) : step ∈ s.closing ∧ ∃ c ≤ steps.length, s.closedAt = some c := by
  obtain ⟨hsteps, harc, -⟩ := walkWithin_concat_iff.1 hwalk
  obtain ⟨k, hle, hk⟩ := h.exists_depth_le hts hsteps (hnear.of_le (Nat.sub_le _ 1))
  obtain ⟨a, ha, hends⟩ := h.exists_followed hts hk (hnear.of_le hle) harc
  have hclosing := (h.searching.closing step).2 ⟨a, ha, hends⟩
  obtain ⟨c, hc, hdepth⟩ := h.searching.closedAt step hclosing
  obtain rfl := depth_unique h.searching.nodup hk hdepth
  exact ⟨hclosing, k, hle, hc⟩

/-- No closed walk is shorter than one whose last step is noted. -/
theorem exists_closedAt_le (hwalk : ts.WalkWithin within start (steps ++ [step]) start) :
    ∃ c ≤ steps.length, s.closedAt = some c := by
  by_cases hnear : s.Near steps.length
  · exact (h.mem_closing hts hwalk hnear).2
  · unfold Near at hnear
    push Not at hnear
    obtain ⟨c, hc, hlt⟩ := hnear
    exact ⟨c, Nat.le_of_lt hlt, hc⟩

/-- Where arcs lead back there are closed walks of this length. -/
theorem exists_walk_of_closedAt {c : Nat} (hc : s.closedAt = some c) :
    ∃ walk, ts.WalkWithin within start walk start ∧ walk.length = c + 1 := by
  obtain ⟨step, hstep⟩ := List.exists_mem_of_ne_nil _ (h.searching.closing_ne_nil c hc)
  obtain ⟨d, hd, hdepth, -, harc⟩ := h.closing_spec hts hstep
  obtain rfl := Option.some.inj (hc.symm.trans hd)
  obtain ⟨walk, hwalk, hlength⟩ := h.searching.walk _ _ hdepth
  have hstart := h.allowed_of_mem h.searching.start_mem
  refine ⟨walk ++ [step], walkWithin_concat_iff.2 ⟨hwalk, harc, hstart⟩, ?_⟩
  rw [List.length_append, hlength, List.length_singleton]

/-- The walks put together with a last step. -/
theorem mem_shortestWalks_closing_iff {c : Nat} (hc : s.closedAt = some c) (hstep : step ∈ s.closing) :
    steps ∈ s.shortestWalks start (s.depth step.1) step.1 ↔
      ts.WalkWithin within start (steps ++ [step]) start ∧ steps.length = c := by
  obtain ⟨d, hd, hdepth, hnear, harc⟩ := h.closing_spec hts hstep
  obtain rfl := Option.some.inj (hc.symm.trans hd)
  have hstart := h.allowed_of_mem h.searching.start_mem
  rw [depth_eq h.searching.nodup hdepth, h.mem_shortestWalks_iff hts hdepth hnear,
    walkWithin_concat_iff]
  simp only [harc, hstart, and_true]

/-- The closed walks put together are those through the start that are as short as any through allowed
states. -/
theorem mem_closedWalks_within_iff : steps ∈ s.closedWalks start ↔
    ts.WalkWithin within start steps start ∧ steps ≠ [] ∧
      ∀ others, ts.WalkWithin within start others start → others ≠ [] →
        steps.length ≤ others.length := by
  unfold closedWalks
  simp only [List.mem_flatMap, List.mem_map]
  constructor
  · rintro ⟨step, hstep, walk, hmem, rfl⟩
    obtain ⟨c, hc, -⟩ := h.closing_spec hts hstep
    obtain ⟨hwalk, rfl⟩ := (h.mem_shortestWalks_closing_iff hts hc hstep).1 hmem
    refine ⟨hwalk, by simp, fun others hothers hne => ?_⟩
    obtain rfl | ⟨others, last, rfl⟩ := List.eq_nil_or_concat' others
    · exact absurd rfl hne
    · obtain ⟨d, hle, hd⟩ := h.exists_closedAt_le hts hothers
      obtain rfl := Option.some.inj (hc.symm.trans hd)
      simpa using hle
  · rintro ⟨hwalk, hne, hleast⟩
    obtain rfl | ⟨walk, step, rfl⟩ := List.eq_nil_or_concat' steps
    · exact absurd rfl hne
    · obtain ⟨c, hle, hc⟩ := h.exists_closedAt_le hts hwalk
      obtain ⟨other, hother, hlength⟩ := h.exists_walk_of_closedAt hts hc
      have hshort := hleast other hother (List.ne_nil_of_length_eq_add_one hlength)
      rw [List.length_append, List.length_singleton, hlength] at hshort
      have heq : walk.length = c := by omega
      have hnear : s.Near walk.length := by
        intro d hd
        have hcd : c = d := Option.some.inj (hc.symm.trans hd)
        omega
      have hclosing := (h.mem_closing hts hwalk hnear).1
      have hmem := (h.mem_shortestWalks_closing_iff hts hc hclosing).2 ⟨hwalk, heq⟩
      exact ⟨step, hclosing, walk, hmem, rfl⟩

/-- In a component every closed walk through the start is allowed. -/
theorem mem_closedWalks_iff (hwithin : ∀ v, within v = true ↔ ts.Connected start v) :
    steps ∈ s.closedWalks start ↔ ts.Walk start steps start ∧ steps ≠ [] ∧
      ∀ others, ts.Walk start others start → others ≠ [] → steps.length ≤ others.length := by
  have hall : ∀ steps, ts.WalkWithin within start steps start ↔ ts.Walk start steps start :=
    fun _ => TransitionSystem.Connected.walkWithin_iff hwithin (.refl start)
  rw [h.mem_closedWalks_within_iff hts]
  simp only [hall]

end Searched

end CycleSearch

end PetriNets
