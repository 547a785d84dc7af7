import PetriNets.Proofs.Cycles.Walk
import PetriNets.Proofs.FirstOccurrences

/-!
# Determinism

A system is asked for a state that two arcs of one label leave (`Branches`), by going through the labels of
what leaves each state and looking for one that has been seen. So the first such state is found, with the
label of the first of its arcs that repeats one (`WellFormed.nondeterminism?_eq_some_iff`).

Arcs with the same ends have different labels, so such a state is one that a label leads away from to two
states (`WellFormed.isDeterministic_iff`), and these are the states that the system gives when it is asked
for one label (`WellFormed.exists_postByLabel`). Where a label leads to one state at most a word does as well,
by induction on the word (`Reads.unique`).
-/

namespace PetriNets

theorem firstRepeated_eq_none_iff {seen ls : List String} :
    firstRepeated seen ls = none ↔ ls.Nodup ∧ ∀ l ∈ ls, l ∉ seen := by
  induction ls generalizing seen with
  | nil => simp [firstRepeated]
  | cons l ls ih =>
    unfold firstRepeated
    by_cases hl : l ∈ seen
    · simp [hl]
    · rw [if_neg (by simpa using hl), ih]
      constructor
      · rintro ⟨hnodup, hnew⟩
        exact ⟨List.nodup_cons.2 ⟨fun hmem => hnew l hmem List.mem_cons_self, hnodup⟩,
          List.forall_mem_cons.2 ⟨hl, fun k hk hseen => hnew k hk (List.mem_cons_of_mem _ hseen)⟩⟩
      · rintro ⟨hnodup, hnew⟩
        obtain ⟨hfresh, hnodup⟩ := List.nodup_cons.1 hnodup
        refine ⟨hnodup, fun k hk hmem => ?_⟩
        rcases List.mem_cons.1 hmem with rfl | hseen
        · exact hfresh hk
        · exact hnew k (List.mem_cons_of_mem _ hk) hseen

theorem firstRepeated_eq_some_iff {seen ls : List String} {l : String} :
    firstRepeated seen ls = some l ↔ ∃ before after, ls = before ++ l :: after ∧
      (l ∈ before ∨ l ∈ seen) ∧ firstRepeated seen before = none := by
  induction ls generalizing seen with
  | nil => simp [firstRepeated]
  | cons k ls ih =>
    by_cases hk : k ∈ seen
    · have hfirst : ∀ ls, firstRepeated seen (k :: ls) = some k := by simp [firstRepeated, hk]
      rw [hfirst]
      constructor
      · intro heq
        obtain rfl := Option.some.inj heq
        exact ⟨[], ls, rfl, .inr hk, rfl⟩
      · rintro ⟨before, after, hls, -, hnone⟩
        cases before with
        | nil => rw [(List.cons.inj hls).1]
        | cons b before =>
          rw [← (List.cons.inj hls).1, hfirst] at hnone
          cases hnone
    · have hrest : ∀ ls, firstRepeated seen (k :: ls) = firstRepeated (k :: seen) ls := by
        simp [firstRepeated, hk]
      have hmem : ∀ before, l ∈ before ∨ l ∈ k :: seen ↔ l ∈ k :: before ∨ l ∈ seen := by
        simp [or_assoc, or_left_comm]
      rw [hrest, ih]
      simp only [hmem, ← hrest]
      constructor
      · rintro ⟨before, after, rfl, hl, hnone⟩
        exact ⟨k :: before, after, rfl, hl, hnone⟩
      · rintro ⟨before, after, hls, hl, hnone⟩
        cases before with
        | nil =>
          -- the first label repeats none
          obtain ⟨rfl, -⟩ := List.cons.inj hls
          exact absurd hl (by simp [hk])
        | cons b before =>
          obtain ⟨rfl, rfl⟩ := List.cons.inj hls
          exact ⟨before, after, rfl, hl, hnone⟩

namespace TransitionSystem

variable {ts : TransitionSystem}

/-- Two arcs of one label leave the state. -/
def Branches (ts : TransitionSystem) (v : String) : Prop :=
  ∃ a ∈ ts.arcs, ∃ b ∈ ts.arcs, a ≠ b ∧ a.key.source = v ∧ b.key.source = v ∧ a.label = b.label

/-- The arc has the label of one that comes before it, and no two of those that come before it have the
same label. -/
def IsFirstRepeat (arcs : List Arc) (a : Arc) : Prop :=
  ∃ before after, arcs = before ++ a :: after ∧ (∃ b ∈ before, b.label = a.label) ∧
    before.Pairwise fun b c => b.label ≠ c.label

/-- A word of labels leads from one state to another. -/
def Reads (ts : TransitionSystem) (v : String) (word : List String) (w : String) : Prop :=
  ∃ steps, ts.Walk v steps w ∧ steps.map Prod.snd = word

theorem nondeterminism?_eq_none_iff : ts.nondeterminism? = none ↔
    ∀ v ∈ ts.stateIds, ((ts.outgoing v).map Arc.label).Nodup := by
  unfold nondeterminism?
  rw [List.findSome?_eq_none_iff]
  simp only [Option.map_eq_none_iff, firstRepeated_eq_none_iff, List.not_mem_nil, not_false_eq_true,
    implies_true, and_true]
  unfold stateIds Graph.nodeIds
  rw [List.forall_mem_map]
  rfl

namespace WellFormed

variable (h : ts.WellFormed)
include h

theorem nodup_arcs : ts.arcs.Nodup := h.graph.nodup_keys.of_map Edge.key

theorem eq_of_ends {a b : Arc} (ha : a ∈ ts.arcs) (hb : b ∈ ts.arcs)
    (hsource : a.key.source = b.key.source) (hlabel : a.label = b.label)
    (htarget : a.key.target = b.key.target) : a = b := by
  refine List.inj_on_of_nodup_map h.graph.nodup_keys ha hb ?_
  rw [h.key_eq ha, h.key_eq hb, hsource, hlabel, htarget]

theorem nodup_outgoing_iff (v : String) : ((ts.outgoing v).map Arc.label).Nodup ↔ ¬ ts.Branches v := by
  rw [h.outgoing_eq, List.nodup_map_iff_inj_on (h.nodup_arcs.filter _)]
  simp only [Branches, List.mem_filter, decide_eq_true_eq]
  constructor
  · rintro hinj ⟨a, ha, b, hb, hne, hsource, hsource', hlabel⟩
    exact hne (hinj a ⟨ha, hsource⟩ b ⟨hb, hsource'⟩ hlabel)
  · rintro hnone a ⟨ha, hsource⟩ b ⟨hb, hsource'⟩ hlabel
    by_contra hne
    exact hnone ⟨a, ha, b, hb, hne, hsource, hsource', hlabel⟩

/-- Two arcs of one label that leave a state lead to two states. -/
theorem not_branches_iff (v : String) : ¬ ts.Branches v ↔
    ∀ l w w', ts.HasArc v l w → ts.HasArc v l w' → w = w' := by
  simp only [Branches, h.hasArc_iff]
  constructor
  · rintro hnone l w w' ⟨a, ha, hsource, rfl, rfl⟩ ⟨b, hb, hsource', hlabel, rfl⟩
    by_contra hne
    exact hnone ⟨a, ha, b, hb, fun heq => hne (by rw [heq]), hsource, hsource', hlabel.symm⟩
  · rintro hfun ⟨a, ha, b, hb, hne, hsource, hsource', hlabel⟩
    have htarget := hfun _ _ _ ⟨a, ha, hsource, rfl, rfl⟩ ⟨b, hb, hsource', hlabel.symm, rfl⟩
    exact hne (h.eq_of_ends ha hb (hsource.trans hsource'.symm) hlabel htarget)

/-- A system is deterministic if a state and a label never lead to two states. -/
theorem isDeterministic_iff : ts.isDeterministic = true ↔
    ∀ v l w w', ts.HasArc v l w → ts.HasArc v l w' → w = w' := by
  unfold isDeterministic
  rw [Option.isNone_iff_eq_none, nondeterminism?_eq_none_iff]
  simp only [h.nodup_outgoing_iff, h.not_branches_iff]
  exact ⟨fun hall v l w w' ha => hall v (h.mem_of_hasArc ha).1 l w w' ha,
    fun hall v _ => hall v⟩

/-! ## The first state with two arcs of one label -/

omit h in
theorem firstRepeated_map_label {arcs : List Arc} {l : String} :
    firstRepeated [] (arcs.map Arc.label) = some l ↔ ∃ a, IsFirstRepeat arcs a ∧ a.label = l := by
  rw [firstRepeated_eq_some_iff]
  constructor
  · rintro ⟨before, after, hlabels, hl, hnone⟩
    obtain ⟨hnodup, -⟩ := firstRepeated_eq_none_iff.1 hnone
    obtain ⟨as, bs, rfl, rfl, hbs⟩ := List.map_eq_append_iff.1 hlabels
    obtain ⟨a, cs, rfl, rfl, rfl⟩ := List.map_eq_cons_iff.1 hbs
    refine ⟨a, ⟨as, cs, rfl, ?_, List.pairwise_map.1 hnodup⟩, rfl⟩
    simpa using hl
  · rintro ⟨a, ⟨before, after, rfl, hrepeat, hdistinct⟩, rfl⟩
    have hnodup : (before.map Arc.label).Nodup := List.pairwise_map.2 hdistinct
    refine ⟨before.map Arc.label, after.map Arc.label, by simp, by simpa using hrepeat, ?_⟩
    exact firstRepeated_eq_none_iff.2 ⟨hnodup, by simp⟩

theorem nondeterminism?_eq_some_iff {s : State} {l : String} : ts.nondeterminism? = some (s, l) ↔
    ∃ before after, ts.states = before ++ s :: after ∧ (∀ u ∈ before, ¬ ts.Branches u.id) ∧
      ts.Branches s.id ∧
      ∃ a, IsFirstRepeat (ts.arcs.filter fun a => a.key.source = s.id) a ∧ a.label = l := by
  unfold nondeterminism?
  rw [List.findSome?_eq_some_iff]
  simp only [Option.map_eq_none_iff, Option.map_eq_some_iff, firstRepeated_eq_none_iff,
    List.not_mem_nil, not_false_eq_true, implies_true, and_true, h.nodup_outgoing_iff]
  constructor
  · rintro ⟨before, _, after, hstates, ⟨l, hl, heq⟩, hbefore⟩
    obtain ⟨rfl, rfl⟩ := Prod.mk.inj heq
    refine ⟨before, after, hstates, hbefore, ?_, ?_⟩
    · by_contra hnone
      have hnodup := (h.nodup_outgoing_iff _).2 hnone
      rw [firstRepeated_eq_none_iff.2 ⟨hnodup, by simp⟩] at hl
      cases hl
    · rw [← h.outgoing_eq]
      exact firstRepeated_map_label.1 hl
  · rintro ⟨before, after, hstates, hbefore, -, hfirst⟩
    rw [← h.outgoing_eq] at hfirst
    exact ⟨before, s, after, hstates, ⟨l, firstRepeated_map_label.2 hfirst, rfl⟩, hbefore⟩

/-! ## Labels and words -/

/-- The states to which one label leads, in the order of the arcs. -/
theorem exists_postByLabel {v : String} (hv : v ∈ ts.stateIds) (l : String) :
    ∃ ss, ts.postByLabel v l = .ok ss ∧ ss.map Node.id =
      (ts.arcs.filter fun a => a.key.source = v ∧ a.label = l).map fun a => a.key.target := by
  have hnode : ∀ a ∈ (ts.arcs.filter fun a => a.key.source = v).filter fun a => a.label = l,
      ∃ s, ts.graph.node a.key.target = .ok s ∧ s.id = a.key.target := by
    intro a ha
    have harc : a ∈ ts.arcs := List.mem_of_mem_filter (List.mem_of_mem_filter ha)
    have htarget := (h.graph.ends_mem a.key (List.mem_map_of_mem harc)).2
    obtain ⟨s, hs, hid⟩ := Graph.mem_nodeIds.1 htarget
    exact ⟨s, h.graph.node_eq_ok_iff.2 ⟨hs, hid⟩, hid⟩
  obtain ⟨ss, hss, hids⟩ := exists_mapM (fun a : Arc => a.key.target) Node.id hnode
  refine ⟨ss, ?_, ?_⟩
  · unfold postByLabel
    rw [h.graph.postsetEdges_eq hv]
    exact hss
  · rw [hids, List.filter_filter]
    simp only [Bool.decide_and, Bool.and_comm]

/-- No more than one state is given for a label just if it leads to no more than one. -/
theorem length_postByLabel_le_one_iff {v : String} (hv : v ∈ ts.stateIds) (l : String) :
    (∃ ss, ts.postByLabel v l = .ok ss ∧ ss.length ≤ 1) ↔
      ∀ w w', ts.HasArc v l w → ts.HasArc v l w' → w = w' := by
  obtain ⟨ss, hss, hids⟩ := h.exists_postByLabel hv l
  have hlength := congrArg List.length hids
  rw [List.length_map, List.length_map] at hlength
  have hone : (∃ ss, ts.postByLabel v l = .ok ss ∧ ss.length ≤ 1) ↔ ss.length ≤ 1 := by
    simp [hss]
  rw [hone, hlength, length_le_one_iff (h.nodup_arcs.filter _)]
  simp only [List.mem_filter, decide_eq_true_eq, h.hasArc_iff]
  constructor
  · rintro hall w w' ⟨a, ha, hsource, hlabel, rfl⟩ ⟨b, hb, hsource', hlabel', rfl⟩
    rw [hall a ⟨ha, hsource, hlabel⟩ b ⟨hb, hsource', hlabel'⟩]
  · rintro hfun a ⟨ha, hsource, hlabel⟩ b ⟨hb, hsource', hlabel'⟩
    have htarget := hfun _ _ ⟨a, ha, hsource, hlabel, rfl⟩ ⟨b, hb, hsource', hlabel', rfl⟩
    exact h.eq_of_ends ha hb (hsource.trans hsource'.symm) (hlabel.trans hlabel'.symm) htarget

end WellFormed

theorem Reads.unique {v w w' : String} {word : List String}
    (hfun : ∀ v l w w', ts.HasArc v l w → ts.HasArc v l w' → w = w') (h : ts.Reads v word w)
    (h' : ts.Reads v word w') : w = w' := by
  induction word generalizing v with
  | nil =>
    obtain ⟨steps, hwalk, hsteps⟩ := h
    obtain ⟨steps', hwalk', hsteps'⟩ := h'
    obtain rfl := List.map_eq_nil_iff.1 hsteps
    obtain rfl := List.map_eq_nil_iff.1 hsteps'
    exact (walk_nil_iff.1 hwalk).symm.trans (walk_nil_iff.1 hwalk')
  | cons l word ih =>
    obtain ⟨_, _ | ⟨harc, hrest⟩, hsteps⟩ := h
    · cases hsteps
    obtain ⟨_, _ | ⟨harc', hrest'⟩, hsteps'⟩ := h'
    · cases hsteps'
    obtain ⟨rfl, hword⟩ := List.cons.inj hsteps
    obtain ⟨rfl, hword'⟩ := List.cons.inj hsteps'
    obtain rfl := hfun _ _ _ _ harc harc'
    exact ih ⟨_, hrest, hword⟩ ⟨_, hrest', hword'⟩

theorem reads_singleton_iff {v l w : String} : ts.Reads v [l] w ↔ ts.HasArc v l w := by
  constructor
  · intro h
    obtain ⟨_, _ | ⟨harc, hrest⟩, hsteps⟩ := h
    · cases hsteps
    obtain ⟨rfl, hnil⟩ := List.cons.inj hsteps
    obtain rfl := List.map_eq_nil_iff.1 hnil
    obtain rfl := walk_nil_iff.1 hrest
    exact harc
  · intro harc
    exact ⟨[(v, l)], .cons harc (.nil w), rfl⟩

namespace WellFormed

variable (h : ts.WellFormed)
include h

theorem isDeterministic_iff_postByLabel : ts.isDeterministic = true ↔
    ∀ v ∈ ts.stateIds, ∀ l, ∃ ss, ts.postByLabel v l = .ok ss ∧ ss.length ≤ 1 := by
  rw [h.isDeterministic_iff]
  constructor
  · intro hfun v hv l
    exact (h.length_postByLabel_le_one_iff hv l).2 (hfun v l)
  · intro hall v l w w' harc
    have hv := (h.mem_of_hasArc harc).1
    exact (h.length_postByLabel_le_one_iff hv l).1 (hall v hv l) w w' harc

theorem isDeterministic_iff_reads : ts.isDeterministic = true ↔
    ∀ v ∈ ts.stateIds, ∀ word w w', ts.Reads v word w → ts.Reads v word w' → w = w' := by
  rw [h.isDeterministic_iff]
  constructor
  · intro hfun v _ word w w' hreads hreads'
    exact hreads.unique hfun hreads'
  · intro hall v l w w' harc harc'
    have hv := (h.mem_of_hasArc harc).1
    exact hall v hv [l] w w' (reads_singleton_iff.2 harc) (reads_singleton_iff.2 harc')

end WellFormed

/-- A system is deterministic if a label never leads from a state to more than one, and then a word does not
either. If it is not, what it gives for it is the first of its states that two arcs of one label leave, with
the label of the first of these arcs that has the label of an earlier one. -/
theorem determinism_exact (built : ts.Built) :
    (ts.isDeterministic = true ↔
      ∀ v ∈ ts.stateIds, ∀ l, ∃ ss, ts.postByLabel v l = .ok ss ∧ ss.length ≤ 1) ∧
    (ts.isDeterministic = true ↔
      ∀ v ∈ ts.stateIds, ∀ word w w', ts.Reads v word w → ts.Reads v word w' → w = w') ∧
    ∀ s l, ts.nondeterminism? = some (s, l) ↔
      ∃ before after, ts.states = before ++ s :: after ∧ (∀ u ∈ before, ¬ ts.Branches u.id) ∧
        ts.Branches s.id ∧
        ∃ a, IsFirstRepeat (ts.arcs.filter fun a => a.key.source = s.id) a ∧ a.label = l := by
  have h := built.wellFormed
  exact ⟨h.isDeterministic_iff_postByLabel, h.isDeterministic_iff_reads,
    fun _ _ => h.nondeterminism?_eq_some_iff⟩

/-- A machine that takes coins, with a flap that comes loose. -/
def flapDocument : SystemDocument where
  name := "flap"
  states := [⟨"idle", ∅⟩, ⟨"paid", ∅⟩, ⟨"open", ∅⟩]
  arcs := [⟨"paid", "open", "push", ∅⟩, ⟨"open", "idle", "", ∅⟩, ⟨"paid", "paid", "coin", ∅⟩,
    ⟨"idle", "paid", "coin", ∅⟩, ⟨"paid", "idle", "coin", ∅⟩, ⟨"paid", "idle", "push", ∅⟩,
    ⟨"open", "open", "", ∅⟩]
  initial := some "idle"
  extensions := ∅

/-- Of the labels that two arcs have, coins come first, as they are repeated first. -/
theorem determinism_exact_flapDocument : ∃ ts, flapDocument.toSystem = .ok ts ∧
    ts.isDeterministic = false ∧
    (∃ v ∈ ts.stateIds, ∃ l, ∀ ss, ts.postByLabel v l = .ok ss → 1 < ss.length) ∧
    (∃ v word w w', ts.Reads v word w ∧ ts.Reads v word w' ∧ w ≠ w') ∧
    ∃ before s after, ts.states = before ++ s :: after ∧ s.id = "paid" ∧
      ∃ a, IsFirstRepeat (ts.arcs.filter fun a => a.key.source = s.id) a ∧ a.label = "coin" := by
  have hflap : ∃ ts s, flapDocument.toSystem = .ok ts ∧ s.id = "paid" ∧
      ts.nondeterminism? = some (s, "coin") := ⟨_, _, rfl, rfl, rfl⟩
  obtain ⟨ts, s, hts, hid, hfirst⟩ := hflap
  obtain ⟨hpost, hreads, hsome⟩ := determinism_exact (built_of_toSystem hts)
  have hnot : ts.isDeterministic = false := by
    unfold isDeterministic
    rw [hfirst]
    rfl
  obtain ⟨before, after, hstates, -, -, ha⟩ := (hsome s "coin").1 hfirst
  refine ⟨ts, hts, hnot, ?_, ?_, before, s, after, hstates, hid, ha⟩
  · rw [hnot] at hpost
    by_contra hnone
    push Not at hnone
    refine absurd (hpost.2 fun v hv l => ?_) nofun
    exact hnone v hv l
  · rw [hnot] at hreads
    by_contra hnone
    push Not at hnone
    exact absurd (hreads.2 fun v _ word w w' hw hw' => hnone v word w w' hw hw') nofun

end TransitionSystem

end PetriNets
