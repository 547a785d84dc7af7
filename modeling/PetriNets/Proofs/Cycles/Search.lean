import PetriNets.Proofs.Cycles.Component

/-!
# The breadth-first search for closed walks

`Searching` is what the tables say of the arcs that have been followed: each distance is the length of a walk
through allowed states, and the last steps that lie on a shortest walk are those noted, with no arc more than
once. It is kept by every arc (`Searching.follow`) that leaves a state of the right distance. That they do is
because the states come off the queue in the order of their distance (`Layered`): `process` carries both
through one round and `exists_run` through all of them.

What is then known is `Searched`: a state whose arcs have not been followed is further away than the
states from which arcs lead back.

How many states a search takes off its queue does not depend on the rounds that it is given (`Takes`). With
fewer rounds it comes to nothing, and what it is given beyond is left over (`Takes.run_eq`).
-/

namespace PetriNets

namespace CycleSearch

variable {ts : TransitionSystem} {start v : String} {within : String → Bool} {arcs : List Arc}
  {a : Arc} {s s' : CycleSearch} {step : WalkStep} {done pending new : List (String × Nat)}
  {d k rounds : Nat}

/-! ## What the tables say -/

/-- The entry that an arc is noted by: the state that it enters, and the step. -/
def arrivalOf (a : Arc) : String × WalkStep := (a.key.target, (a.key.source, a.label))

/-- What is known after some arcs have been followed. -/
structure Searching (ts : TransitionSystem) (start : String) (within : String → Bool)
    (arcs : List Arc) (s : CycleSearch) : Prop where
  nodup : (s.depths.map Prod.fst).Nodup
  start_mem : (start, 0) ∈ s.depths
  walk : ∀ v k, (v, k) ∈ s.depths → ∃ steps, ts.WalkWithin within start steps v ∧ steps.length = k
  followed : ∀ a ∈ arcs, ∃ k, (a.key.source, k) ∈ s.depths ∧
    (a.key.target ≠ start → within a.key.target → ∃ j ≤ k + 1, (a.key.target, j) ∈ s.depths)
  arrivals : ∀ v step, (v, step) ∈ s.arrivals ↔ v ≠ start ∧ within v ∧
    (∃ a ∈ arcs, a.key.target = v ∧ (a.key.source, a.label) = step) ∧
    ∃ k, (step.1, k) ∈ s.depths ∧ (v, k + 1) ∈ s.depths
  sublist : s.arrivals.Sublist (arcs.map arrivalOf)
  closing : ∀ step, step ∈ s.closing ↔
    ∃ a ∈ arcs, a.key.target = start ∧ (a.key.source, a.label) = step
  closedAt : ∀ step ∈ s.closing, ∃ c, s.closedAt = some c ∧ (step.1, c) ∈ s.depths
  closing_ne_nil : ∀ c, s.closedAt = some c → s.closing ≠ []

theorem searching_atStart (hstart : within start = true) :
    Searching ts start within [] (atStart start) where
  nodup := List.nodup_singleton start
  start_mem := List.mem_singleton.2 rfl
  walk v k h := by
    cases List.mem_singleton.1 h
    exact ⟨[], TransitionSystem.walkWithin_nil_iff.2 ⟨rfl, hstart⟩, rfl⟩
  followed := nofun
  arrivals v step := by simp [atStart]
  sublist := List.Sublist.slnil
  closing step := by simp [atStart]
  closedAt := nofun
  closing_ne_nil := nofun

theorem depth_unique {j : Nat} (hnodup : (s.depths.map Prod.fst).Nodup) (hj : (v, j) ∈ s.depths)
    (hk : (v, k) ∈ s.depths) : j = k :=
  congrArg Prod.snd (List.inj_on_of_nodup_map hnodup hj hk rfl)

theorem lookup_eq_some_iff (hnodup : (s.depths.map Prod.fst).Nodup) :
    s.depths.lookup v = some k ↔ (v, k) ∈ s.depths := by
  constructor
  · intro h
    obtain ⟨before, after, heq, -⟩ := List.lookup_eq_some_iff.1 h
    rw [heq]
    exact List.mem_append_right _ List.mem_cons_self
  · intro h
    have hsome : (s.depths.lookup v).isSome :=
      List.lookup_isSome_iff.2 ⟨(v, k), h, beq_self_eq_true v⟩
    obtain ⟨j, hj⟩ := Option.isSome_iff_exists.1 hsome
    obtain ⟨before, after, heq, -⟩ := List.lookup_eq_some_iff.1 hj
    have hmem : (v, j) ∈ s.depths := by
      rw [heq]
      exact List.mem_append_right _ List.mem_cons_self
    rw [hj, depth_unique hnodup hmem h]

theorem depth_eq (hnodup : (s.depths.map Prod.fst).Nodup) (hk : (v, k) ∈ s.depths) :
    s.depth v = k := by
  unfold depth
  rw [(lookup_eq_some_iff hnodup).2 hk, Option.getD_some]

theorem mem_predecessors_iff : step ∈ s.predecessors v ↔ (v, step) ∈ s.arrivals := by
  simp [predecessors]

namespace Searching

variable (h : Searching ts start within arcs s)
include h

theorem with_queue (queue : List String) :
    Searching ts start within arcs { s with queue } :=
  ⟨h.nodup, h.start_mem, h.walk, h.followed, h.arrivals, h.sublist, h.closing, h.closedAt,
    h.closing_ne_nil⟩

/-- One more state, next to one that is known. -/
theorem discover (step : WalkStep) (hnew : s.depths.lookup v = none) (hstep : (step.1, d) ∈ s.depths)
    (harc : ts.HasArc step.1 step.2 v) (hwithin : within v = true) : Searching ts start within arcs
      { s with depths := (v, d + 1) :: s.depths, queue := s.queue ++ [v] } := by
  have hfresh : ∀ k, (v, k) ∉ s.depths := by
    intro k hk
    rw [(lookup_eq_some_iff h.nodup).2 hk] at hnew
    cases hnew
  have hnodup : (((v, d + 1) :: s.depths).map Prod.fst).Nodup := by
    refine List.nodup_cons.2 ⟨fun hmem => ?_, h.nodup⟩
    obtain ⟨⟨w, k⟩, hk, rfl⟩ := List.mem_map.1 hmem
    exact hfresh k hk
  have hgrow : ∀ {e}, e ∈ s.depths → e ∈ (v, d + 1) :: s.depths := List.mem_cons_of_mem _
  refine ⟨hnodup, hgrow h.start_mem, fun w k hk => ?_, fun a ha => ?_, fun w last => ?_, h.sublist,
    h.closing, fun last hlast => ?_, h.closing_ne_nil⟩
  · rcases List.mem_cons.1 hk with heq | hk
    · cases heq
      obtain ⟨steps, hwalk, hlength⟩ := h.walk _ _ hstep
      refine ⟨steps ++ [step], TransitionSystem.walkWithin_concat_iff.2 ⟨hwalk, harc, hwithin⟩, ?_⟩
      rw [List.length_append, hlength, List.length_singleton]
    · exact h.walk w k hk
  · obtain ⟨k, hk, htarget⟩ := h.followed a ha
    refine ⟨k, hgrow hk, fun hne hwithin => ?_⟩
    obtain ⟨j, hle, hj⟩ := htarget hne hwithin
    exact ⟨j, hle, hgrow hj⟩
  · rw [h.arrivals]
    -- The ends of an arc that has been followed were known before.
    refine and_congr_right fun hne => and_congr_right fun hwithin => and_congr_right ?_
    rintro ⟨a, ha, rfl, rfl⟩
    obtain ⟨k, hk, htarget⟩ := h.followed a ha
    obtain ⟨j, -, hj⟩ := htarget hne hwithin
    constructor
    · rintro ⟨k, hk, hk'⟩
      exact ⟨k, hgrow hk, hgrow hk'⟩
    · rintro ⟨k', hk', hj'⟩
      obtain rfl := depth_unique hnodup (hgrow hk) hk'
      obtain rfl := depth_unique hnodup (hgrow hj) hj'
      exact ⟨k, hk, hj⟩
  · obtain ⟨c, hc, hk⟩ := h.closedAt last hlast
    exact ⟨c, hc, hgrow hk⟩

variable (hsource : (a.key.source, d) ∈ s.depths)
include hsource

theorem followed_concat (hlast : a.key.target ≠ start → within a.key.target →
    ∃ j ≤ d + 1, (a.key.target, j) ∈ s.depths) :
    ∀ b ∈ arcs ++ [a], ∃ k, (b.key.source, k) ∈ s.depths ∧
      (b.key.target ≠ start → within b.key.target → ∃ j ≤ k + 1, (b.key.target, j) ∈ s.depths) := by
  intro b hb
  rcases List.mem_append.1 hb with hb | hb
  · exact h.followed b hb
  · rw [List.mem_singleton.1 hb]
    exact ⟨d, hsource, hlast⟩

omit hsource in
/-- An arc that is followed and not noted. -/
theorem sublist_concat : s.arrivals.Sublist ((arcs ++ [a]).map arrivalOf) := by
  rw [List.map_append]
  exact h.sublist.trans (List.sublist_append_left _ _)

/-- An arc that leads out of the allowed states. -/
theorem skip (hne : a.key.target ≠ start) (hwithin : within a.key.target = false) :
    Searching ts start within (arcs ++ [a]) s := by
  have hfollowed := h.followed_concat hsource fun _ htrue => by
    rw [hwithin] at htrue
    cases htrue
  refine ⟨h.nodup, h.start_mem, h.walk, hfollowed, fun w last => ?_, h.sublist_concat,
    fun last => ?_, h.closedAt, h.closing_ne_nil⟩
  · rw [h.arrivals]
    refine and_congr_right fun _ => and_congr_right fun hw => and_congr_left fun _ => ?_
    have hother : ¬ a.key.target = w := by
      rintro rfl
      rw [hwithin] at hw
      cases hw
    simp [or_and_right, exists_or, hother]
  · rw [h.closing]
    simp [or_and_right, exists_or, hne]

/-- An arc back to the start. -/
theorem close (htarget : a.key.target = start) (hclosed : ∀ c, s.closedAt = some c → c = d) :
    Searching ts start within (arcs ++ [a])
      { s with closedAt := some d, closing := s.closing ++ [(a.key.source, a.label)] } := by
  have hfollowed := h.followed_concat hsource fun hne => absurd htarget hne
  have hclosing : s.closing ++ [(a.key.source, a.label)] ≠ [] := by simp
  refine ⟨h.nodup, h.start_mem, h.walk, hfollowed, fun w last => ?_, h.sublist_concat,
    fun last => ?_, fun last hlast => ⟨d, rfl, ?_⟩, fun _ _ => hclosing⟩
  · rw [h.arrivals]
    refine and_congr_right fun hne => and_congr_right fun _ => and_congr_left fun _ => ?_
    have hother : ¬ a.key.target = w := fun heq => hne (heq ▸ htarget)
    simp [or_and_right, exists_or, hother]
  · simp [h.closing, or_and_right, exists_or, htarget, eq_comm]
  · rcases List.mem_append.1 hlast with hlast | hlast
    · obtain ⟨c, hc, hk⟩ := h.closedAt last hlast
      exact hclosed c hc ▸ hk
    · rw [List.mem_singleton.1 hlast]
      exact hsource

/-- An arc to a state that is known. -/
theorem note (hne : a.key.target ≠ start) (hwithin : within a.key.target)
    (htarget : (a.key.target, k) ∈ s.depths) (hle : k ≤ d + 1) :
    Searching ts start within (arcs ++ [a]) { s with
      arrivals := if k = d + 1 then s.arrivals ++ [(a.key.target, (a.key.source, a.label))]
        else s.arrivals } := by
  have hfollowed := h.followed_concat hsource fun _ _ => ⟨k, hle, htarget⟩
  refine ⟨h.nodup, h.start_mem, h.walk, hfollowed, fun w last => ?_, ?_, fun last => ?_, h.closedAt,
    h.closing_ne_nil⟩
  · -- The arc lies on a shortest walk if the distances of its ends differ by one.
    have hshort : (∃ j, (a.key.source, j) ∈ s.depths ∧ (a.key.target, j + 1) ∈ s.depths) ↔
        k = d + 1 := by
      constructor
      · rintro ⟨j, hj, hj'⟩
        obtain rfl := depth_unique h.nodup hj hsource
        exact depth_unique h.nodup htarget hj'
      · rintro rfl
        exact ⟨d, hsource, htarget⟩
    have hmem : (w, last) ∈ (if k = d + 1 then
        s.arrivals ++ [(a.key.target, (a.key.source, a.label))] else s.arrivals) ↔
        (w, last) ∈ s.arrivals ∨ k = d + 1 ∧ (w, last) = (a.key.target, (a.key.source, a.label)) := by
      split <;> simp_all
    refine hmem.trans ?_
    rw [h.arrivals]
    constructor
    · rintro (⟨hw, hin, ⟨b, hb, hends⟩, hdepths⟩ | ⟨hk, heq⟩)
      · exact ⟨hw, hin, ⟨b, List.mem_append_left _ hb, hends⟩, hdepths⟩
      · cases heq
        exact ⟨hne, hwithin, ⟨a, List.mem_append_right _ List.mem_cons_self, rfl, rfl⟩, hshort.2 hk⟩
    · rintro ⟨hw, hin, ⟨b, hb, rfl, rfl⟩, hdepths⟩
      rcases List.mem_append.1 hb with hb | hb
      · exact .inl ⟨hw, hin, ⟨b, hb, rfl, rfl⟩, hdepths⟩
      · obtain rfl := List.mem_singleton.1 hb
        exact .inr ⟨hshort.1 hdepths, rfl⟩
  · by_cases hk : k = d + 1
    · rw [if_pos hk, List.map_append]
      exact h.sublist.append (List.Sublist.refl _)
    · rw [if_neg hk]
      exact h.sublist_concat
  · rw [h.closing]
    simp [or_and_right, exists_or, hne]

end Searching

/-! ## The order of the search -/

/-- What the arcs that leave a state at distance `d` add. -/
structure Widens (d : Nat) (new : List String) (s s' : CycleSearch) : Prop where
  depths : s'.depths.reverse = s.depths.reverse ++ new.map (·, d + 1)
  queue : s'.queue = s.queue ++ new
  closedAt : s'.closedAt = s.closedAt ∨ s'.closedAt = some d

namespace Widens

variable {new newer : List String} {s'' : CycleSearch} {e : String × Nat}

theorem of_eq (hdepths : s'.depths = s.depths) (hqueue : s'.queue = s.queue)
    (hclosedAt : s'.closedAt = s.closedAt ∨ s'.closedAt = some d) : Widens d [] s s' :=
  ⟨by simp [hdepths], by simp [hqueue], hclosedAt⟩

theorem trans (h : Widens d new s s') (h' : Widens d newer s' s'') :
    Widens d (new ++ newer) s s'' := by
  refine ⟨?_, ?_, ?_⟩
  · rw [h'.depths, h.depths, List.map_append, List.append_assoc]
  · rw [h'.queue, h.queue, List.append_assoc]
  · rcases h'.closedAt with heq | heq
    · exact heq ▸ h.closedAt
    · exact .inr heq

theorem mem_depths_iff (h : Widens d new s s') :
    e ∈ s'.depths ↔ e ∈ s.depths ∨ e.1 ∈ new ∧ e.2 = d + 1 := by
  rw [← List.mem_reverse, h.depths, List.mem_append, List.mem_reverse, List.mem_map]
  refine or_congr_right ⟨?_, ?_⟩
  · rintro ⟨w, hw, rfl⟩
    exact ⟨hw, rfl⟩
  · rintro ⟨hw, hd⟩
    exact ⟨e.1, hw, Prod.ext rfl hd.symm⟩

theorem near (h : Widens d new s s') (hnear : ∀ e ∈ s.depths, e.2 ≤ d + 1) :
    ∀ e ∈ s'.depths, e.2 ≤ d + 1 := by
  intro e he
  rcases h.mem_depths_iff.1 he with he | ⟨-, he⟩
  · exact hnear e he
  · exact Nat.le_of_eq he

theorem closed (h : Widens d new s s') (hclosed : ∀ c, s.closedAt = some c → c = d) :
    ∀ c, s'.closedAt = some c → c = d := by
  intro c hc
  rcases h.closedAt with heq | heq
  · exact hclosed c (heq ▸ hc)
  · exact Option.some.inj (hc.symm.trans heq)

end Widens

namespace Searching

variable (hts : ts.WellFormed) (hnear : ∀ e ∈ s.depths, e.2 ≤ d + 1)
  (hclosed : ∀ c, s.closedAt = some c → c = d)
include hts hnear hclosed

/-- One arc. -/
theorem follow (h : Searching ts start within arcs s) (ha : a ∈ ts.arcs)
    (hsource : (a.key.source, d) ∈ s.depths) :
    Searching ts start within (arcs ++ [a]) (follow start within d s a) ∧
      ∃ new, Widens d new s (CycleSearch.follow start within d s a) := by
  unfold CycleSearch.follow
  dsimp only
  split
  · next htarget => exact ⟨h.close hsource htarget hclosed, [], .of_eq rfl rfl (.inr rfl)⟩
  · next hne =>
    split
    · next hwithin =>
      rw [Bool.not_eq_true'] at hwithin
      exact ⟨h.skip hsource hne hwithin, [], .of_eq rfl rfl (.inl rfl)⟩
    · next hwithin =>
      rw [Bool.not_eq_true', Bool.not_eq_false] at hwithin
      split
      · next hnew =>
        have harc : ts.HasArc a.key.source a.label a.key.target :=
          hts.hasArc_iff.2 ⟨a, ha, rfl, rfl, rfl⟩
        have hfound := h.discover (a.key.source, a.label) hnew hsource harc hwithin
        have hnoted := hfound.note (List.mem_cons_of_mem _ hsource) hne hwithin List.mem_cons_self
          (Nat.le_refl _)
        rw [if_pos rfl] at hnoted
        exact ⟨hnoted, [a.key.target], by simp, by simp, .inl rfl⟩
      · next known hknown =>
        have hmem := (lookup_eq_some_iff h.nodup).1 hknown
        have hnoted := h.note hsource hne hwithin hmem (hnear _ hmem)
        split
        · next heq =>
          rw [if_pos heq] at hnoted
          exact ⟨hnoted, [], .of_eq rfl rfl (.inl rfl)⟩
        · next hneq =>
          rw [if_neg hneq] at hnoted
          exact ⟨hnoted, [], .of_eq rfl rfl (.inl rfl)⟩

/-- All arcs that leave a state. -/
theorem foldl_follow (h : Searching ts start within arcs s) (hv : (v, d) ∈ s.depths) (out : List Arc)
    (hout : ∀ a ∈ out, a ∈ ts.arcs ∧ a.key.source = v) :
    Searching ts start within (arcs ++ out) (out.foldl (CycleSearch.follow start within d) s) ∧
      ∃ new, Widens d new s (out.foldl (CycleSearch.follow start within d) s) := by
  induction out using List.reverseRecOn with
  | nil =>
    rw [List.append_nil]
    exact ⟨h, [], .of_eq rfl rfl (.inl rfl)⟩
  | append_singleton out a ih =>
    rw [List.foldl_concat, ← List.append_assoc]
    obtain ⟨hout, hlast⟩ := List.forall_mem_append.1 hout
    obtain ⟨ha, rfl⟩ := hlast a List.mem_cons_self
    obtain ⟨hs', new, hwidens⟩ := ih hout
    have hv' := hwidens.mem_depths_iff.2 (.inl hv)
    obtain ⟨hs'', newer, hwidens'⟩ :=
      hs'.follow hts (hwidens.near hnear) (hwidens.closed hclosed) ha hv'
    exact ⟨hs'', new ++ newer, hwidens.trans hwidens'⟩

end Searching

/-- The states come off the queue in the order of their distance, and those on the queue are at most
one step apart. Arcs that lead back leave states whose arcs have been followed. -/
structure Layered (done pending : List (String × Nat)) (s : CycleSearch) : Prop where
  depths : s.depths.reverse = done ++ pending
  queue : s.queue = pending.map Prod.fst
  sorted : (done ++ pending).Pairwise fun e f => e.2 ≤ f.2
  near : ∀ e ∈ pending, ∀ f ∈ pending, f.2 ≤ e.2 + 1
  closed : ∀ c, s.closedAt = some c → ∃ e ∈ done, e.2 = c

theorem layered_atStart : Layered [] [(start, 0)] (atStart start) where
  depths := rfl
  queue := rfl
  sorted := List.pairwise_singleton _ _
  near := by simp
  closed := nofun

theorem Layered.mem_depths_iff (hl : Layered done pending s) {e : String × Nat} :
    e ∈ s.depths ↔ e ∈ done ∨ e ∈ pending := by
  rw [← List.mem_reverse, hl.depths, List.mem_append]

theorem Layered.nodup_done (hl : Layered done pending s) (hnodup : (s.depths.map Prod.fst).Nodup) :
    (done.map Prod.fst).Nodup := by
  rw [← List.nodup_reverse, ← List.map_reverse, hl.depths, List.map_append] at hnodup
  exact hnodup.of_append_left

theorem Layered.head_le (hl : Layered done ((v, d) :: pending) s) :
    ∀ e ∈ (v, d) :: pending, d ≤ e.2 := by
  intro e he
  rcases List.mem_cons.1 he with rfl | he
  · exact Nat.le_refl d
  · have hpending := (List.pairwise_append.1 hl.sorted).2.1
    exact (List.pairwise_cons.1 hpending).1 e he

theorem Layered.done_le (hl : Layered done ((v, d) :: pending) s) : ∀ e ∈ done, e.2 ≤ d := by
  intro e he
  exact (List.pairwise_append.1 hl.sorted).2.2 e he _ List.mem_cons_self

theorem Layered.le_succ (hl : Layered done ((v, d) :: pending) s) : ∀ e ∈ s.depths, e.2 ≤ d + 1 := by
  intro e he
  rcases hl.mem_depths_iff.1 he with he | he
  · exact Nat.le_succ_of_le (hl.done_le e he)
  · exact hl.near _ List.mem_cons_self e he

/-- The arcs of the first state of the queue put what is new behind all that waits. -/
theorem Layered.advance (hl : Layered done ((v, d) :: pending) s) {new : List String}
    (hclosed : ∀ c, s.closedAt = some c → c = d)
    (hwidens : Widens d new { s with queue := pending.map Prod.fst } s') :
    Layered (done ++ [(v, d)]) (pending ++ new.map (·, d + 1)) s' := by
  have hsplit : done ++ [(v, d)] ++ (pending ++ new.map (·, d + 1)) =
      (done ++ (v, d) :: pending) ++ new.map (·, d + 1) := by simp
  refine ⟨?_, ?_, ?_, fun e he f hf => ?_, fun c hc => ?_⟩
  · rw [hwidens.depths, hl.depths, hsplit]
  · rw [hwidens.queue, List.map_append, List.map_map]
    simp [Function.comp_def]
  · rw [hsplit]
    refine List.pairwise_append.2 ⟨hl.sorted, ?_, fun e he f hf => ?_⟩
    · exact List.pairwise_map.2 (List.pairwise_of_forall fun _ _ => Nat.le_refl _)
    · obtain ⟨w, -, rfl⟩ := List.mem_map.1 hf
      exact hl.le_succ e (hl.mem_depths_iff.2 (List.mem_append.1 he))
  · -- All that waits now is at distance `d` or `d + 1`.
    have hrange : ∀ e ∈ pending ++ new.map (·, d + 1), d ≤ e.2 ∧ e.2 ≤ d + 1 := by
      intro e he
      rcases List.mem_append.1 he with he | he
      · have hwaits : e ∈ (v, d) :: pending := List.mem_cons_of_mem _ he
        exact ⟨hl.head_le e hwaits, hl.le_succ e (hl.mem_depths_iff.2 (.inr hwaits))⟩
      · obtain ⟨w, -, rfl⟩ := List.mem_map.1 he
        exact ⟨Nat.le_succ d, Nat.le_refl _⟩
    have hlow := (hrange e he).1
    have hhigh := (hrange f hf).2
    omega
  · obtain rfl := hwidens.closed hclosed c hc
    exact ⟨(v, c), List.mem_append_right _ List.mem_cons_self, rfl⟩

/-- The next state, at distance `d`, is taken off the queue and its arcs are followed. -/
theorem process (hts : ts.WellFormed)
    (h : Searching ts start within (done.flatMap fun e => ts.outgoing e.1) s)
    (hl : Layered done ((v, d) :: pending) s) (hopen : ∀ c, s.closedAt = some c → d ≤ c) :
    let next := (ts.outgoing v).foldl (follow start within d) { s with queue := pending.map Prod.fst }
    Searching ts start within ((done ++ [(v, d)]).flatMap fun e => ts.outgoing e.1) next ∧
      ∃ new, Layered (done ++ [(v, d)]) (pending ++ new) next := by
  intro next
  have hmem : (v, d) ∈ s.depths := hl.mem_depths_iff.2 (.inr List.mem_cons_self)
  have hclosed : ∀ c, s.closedAt = some c → c = d := by
    intro c hc
    obtain ⟨e, he, rfl⟩ := hl.closed c hc
    exact Nat.le_antisymm (hl.done_le e he) (hopen e.2 hc)
  have hout : ∀ a ∈ ts.outgoing v, a ∈ ts.arcs ∧ a.key.source = v := by
    intro a ha
    rw [hts.outgoing_eq, List.mem_filter, decide_eq_true_eq] at ha
    exact ha
  obtain ⟨hs', new, hwidens⟩ := Searching.foldl_follow (s := { s with queue := pending.map Prod.fst })
    hts hl.le_succ hclosed (h.with_queue _) hmem (ts.outgoing v) hout
  have hsearching : Searching ts start within
      ((done ++ [(v, d)]).flatMap fun e => ts.outgoing e.1) next := by
    rw [List.flatMap_append, List.flatMap_singleton]
    exact hs'
  exact ⟨hsearching, new.map (·, d + 1), hl.advance hclosed hwidens⟩

/-- What is known when the search has ended: the arcs of the states in `done` have been followed, those of each
state once, and where there are other states, they are further away than those from which arcs lead back. -/
structure Searched (ts : TransitionSystem) (start : String) (within : String → Bool)
    (done : List (String × Nat)) (s : CycleSearch) : Prop where
  searching : Searching ts start within (done.flatMap fun e => ts.outgoing e.1) s
  nodup_done : (done.map Prod.fst).Nodup
  ended : ∀ e ∈ s.depths, e ∈ done ∨ ∃ c, s.closedAt = some c ∧ c < e.2

theorem Searching.length_depths_le (hts : ts.WellFormed) (hstart : start ∈ ts.stateIds)
    (h : Searching ts start within arcs s) : s.depths.length ≤ ts.stateCount := by
  have hsub : s.depths.map Prod.fst ⊆ ts.stateIds := by
    intro v hv
    obtain ⟨e, he, rfl⟩ := List.mem_map.1 hv
    obtain ⟨steps, hwalk, -⟩ := h.walk e.1 e.2 he
    exact hts.mem_of_walk hwalk.walk hstart
  have hle := (h.nodup.subperm hsub).length_le
  rwa [List.length_map, TransitionSystem.length_stateIds] at hle

theorem length_le (hts : ts.WellFormed) (hstart : start ∈ ts.stateIds)
    (h : Searching ts start within arcs s) (hl : Layered done pending s) :
    done.length + pending.length ≤ ts.stateCount := by
  rw [← List.length_append, ← hl.depths, List.length_reverse]
  exact h.length_depths_le hts hstart

theorem run_of_queue_eq_nil (hqueue : s.queue = []) (rounds : Nat) :
    run ts start within rounds s = some (s, rounds) := by
  unfold run
  rw [hqueue]

theorem run_of_queue_eq_cons {id : String} {queue : List String} (hqueue : s.queue = id :: queue)
    (rounds : Nat) : run ts start within (rounds + 1) s =
      if s.closedAt.any (· < s.depth id) then some ({ s with queue }, rounds)
      else run ts start within rounds
        ((ts.outgoing id).foldl (follow start within (s.depth id)) { s with queue }) := by
  conv_lhs => unfold run
  rw [hqueue]

theorem run_zero {id : String} {queue : List String} (hqueue : s.queue = id :: queue) :
    run ts start within 0 s = none := by
  unfold run
  rw [hqueue]

theorem run_of_nil (hl : Layered done [] s)
    (h : Searching ts start within (done.flatMap fun e => ts.outgoing e.1) s) :
    run ts start within rounds s = some (s, rounds) ∧ Searched ts start within done s := by
  refine ⟨run_of_queue_eq_nil hl.queue rounds, h, hl.nodup_done h.nodup, fun e he => .inl ?_⟩
  simpa using hl.mem_depths_iff.1 he

theorem run_of_cons (hl : Layered done ((v, d) :: pending) s)
    (hnodup : (s.depths.map Prod.fst).Nodup) :
    run ts start within (rounds + 1) s =
      if s.closedAt.any (· < d) then some ({ s with queue := pending.map Prod.fst }, rounds)
      else run ts start within rounds
        ((ts.outgoing v).foldl (follow start within d) { s with queue := pending.map Prod.fst }) := by
  have hmem : (v, d) ∈ s.depths := hl.mem_depths_iff.2 (.inr List.mem_cons_self)
  rw [run_of_queue_eq_cons hl.queue, depth_eq hnodup hmem]

/-- Where arcs lead back from a state nearer than the first one of the queue. -/
theorem searched_of_lt (hl : Layered done ((v, d) :: pending) s)
    (h : Searching ts start within (done.flatMap fun e => ts.outgoing e.1) s) {c : Nat}
    (hc : s.closedAt = some c) (hlt : c < d) :
    Searched ts start within done { s with queue := pending.map Prod.fst } := by
  refine ⟨h.with_queue _, hl.nodup_done h.nodup, fun e he => ?_⟩
  rcases hl.mem_depths_iff.1 he with he | he
  · exact .inl he
  · have hle := hl.head_le e he
    exact .inr ⟨c, hc, by omega⟩

/-- With a round for every state that has not been done the search comes to its end. -/
theorem exists_run (hts : ts.WellFormed) (hstart : start ∈ ts.stateIds)
    (h : Searching ts start within (done.flatMap fun e => ts.outgoing e.1) s)
    (hl : Layered done pending s) (hrounds : ts.stateCount ≤ rounds + done.length) :
    ∃ s' rest done', run ts start within rounds s = some (s', rest) ∧
      rounds + done.length ≤ rest + ts.stateCount ∧ Searched ts start within done' s' := by
  induction rounds generalizing done pending s with
  | zero =>
    have hlength := length_le hts hstart h hl
    obtain rfl : pending = [] := List.length_eq_zero_iff.1 (by omega)
    obtain ⟨hrun, hsearched⟩ := run_of_nil hl h
    exact ⟨s, 0, done, hrun, by omega, hsearched⟩
  | succ rounds ih =>
    have hlength := length_le hts hstart h hl
    rcases pending with _ | ⟨⟨v, d⟩, pending⟩
    · obtain ⟨hrun, hsearched⟩ := run_of_nil hl h
      exact ⟨s, rounds + 1, done, hrun, by omega, hsearched⟩
    · rw [List.length_cons] at hlength
      rw [run_of_cons hl h.nodup]
      split
      · next hstop =>
        obtain ⟨c, hc, hlt⟩ := (Option.any_eq_true _ _).1 hstop
        exact ⟨_, rounds, done, rfl, by omega, searched_of_lt hl h hc (of_decide_eq_true hlt)⟩
      · next hgo =>
        have hopen : ∀ c, s.closedAt = some c → d ≤ c := by
          intro c hc
          by_contra hlt
          exact hgo ((Option.any_eq_true _ _).2 ⟨c, hc, decide_eq_true (Nat.lt_of_not_le hlt)⟩)
        obtain ⟨hs', new, hl'⟩ := process hts h hl hopen
        have hcount : (done ++ [(v, d)]).length = done.length + 1 := by simp
        obtain ⟨s', rest, done', hrun, hrest, hsearched⟩ := ih hs' hl' (by omega)
        exact ⟨s', rest, done', hrun, by omega, hsearched⟩

/-! ## Rounds -/

/-- Left alone, the search takes so many states off its queue, and this is what it comes to. -/
inductive Takes (ts : TransitionSystem) (start : String) (within : String → Bool) :
    CycleSearch → Nat → CycleSearch → Prop where
  /-- No state is left. -/
  | finished {s : CycleSearch} (hqueue : s.queue = []) : Takes ts start within s 0 s
  /-- The next state is further away than those from which arcs lead back. -/
  | closed {s : CycleSearch} {id : String} {queue : List String} (hqueue : s.queue = id :: queue)
      (hfar : s.closedAt.any (· < s.depth id) = true) : Takes ts start within s 1 { s with queue }
  /-- The arcs of the next state are followed. -/
  | further {s s' : CycleSearch} {id : String} {queue : List String} {k : Nat}
      (hqueue : s.queue = id :: queue) (hnear : s.closedAt.any (· < s.depth id) = false)
      (rest : Takes ts start within
        ((ts.outgoing id).foldl (follow start within (s.depth id)) { s with queue }) k s') :
      Takes ts start within s (k + 1) s'

theorem Takes.run_eq (h : Takes ts start within s k s') (n : Nat) :
    run ts start within n s = if n < k then none else some (s', n - k) := by
  induction h generalizing n with
  | finished hqueue => exact run_of_queue_eq_nil hqueue n
  | closed hqueue hfar =>
    cases n with
    | zero => exact run_zero hqueue
    | succ n =>
      rw [run_of_queue_eq_cons hqueue, if_pos hfar, if_neg (by omega)]
      rfl
  | further hqueue hnear _ ih =>
    cases n with
    | zero =>
      rw [if_pos (Nat.succ_pos _)]
      exact run_zero hqueue
    | succ n =>
      rw [run_of_queue_eq_cons hqueue, hnear, ih n]
      simp only [Nat.succ_lt_succ_iff, Nat.add_sub_add_right, Bool.false_eq_true, if_false]

/-- What comes to its end within some budget takes some number of states. -/
theorem exists_takes (h : run ts start within rounds s = some (s', rest)) :
    ∃ k, Takes ts start within s k s' := by
  induction rounds generalizing s with
  | zero =>
    cases hqueue : s.queue with
    | nil =>
      rw [run_of_queue_eq_nil hqueue] at h
      cases h
      exact ⟨0, .finished hqueue⟩
    | cons id queue => cases (run_zero hqueue).symm.trans h
  | succ rounds ih =>
    cases hqueue : s.queue with
    | nil =>
      rw [run_of_queue_eq_nil hqueue] at h
      cases h
      exact ⟨0, .finished hqueue⟩
    | cons id queue =>
      rw [run_of_queue_eq_cons hqueue] at h
      split at h
      · next hfar =>
        cases h
        exact ⟨1, .closed hqueue hfar⟩
      · next hnear =>
        obtain ⟨k, hk⟩ := ih h
        exact ⟨k + 1, .further hqueue (Bool.eq_false_iff.2 hnear) hk⟩

/-- Rounds that are not needed are left over. -/
theorem run_add {rest : Nat} (more : Nat) (h : run ts start within rounds s = some (s', rest)) :
    run ts start within (rounds + more) s = some (s', rest + more) := by
  obtain ⟨k, hk⟩ := exists_takes h
  rw [hk.run_eq] at h ⊢
  split at h
  · cases h
  · next henough =>
    obtain rfl : rounds - k = rest := congrArg Prod.snd (Option.some.inj h)
    rw [if_neg (by omega), Nat.sub_add_comm (Nat.le_of_not_lt henough)]

end CycleSearch

end PetriNets
