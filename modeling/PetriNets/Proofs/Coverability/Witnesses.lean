import PetriNets.Proofs.Coverability.Graph
import PetriNets.Proofs.Coverability.Trail

/-!
# Witnesses replay

A witness is cut out of a trail at a marking that what has been fired at the end of the trail covers
strictly (`Witness.IsCut`). What has been fired is finite, so are all markings of the trail, and both
sides of the cut are firing sequences. Nothing gets `ω` in another way the first time: the place that
a witness is for has it in some node (`Exploration.Witnessed`), and where some node has it there is a
witness.
-/

namespace PetriNets

variable {nameOf : PlaceId → String} {known found : List Witness} {trail : Trail} {fired : Marking}
  {s : TreeStep} {w : Witness} {p : PlaceId} {d : Nat}

/-! ## The witnesses of a trail -/

/-- The witness for a place that is cut out of a trail at one of its steps. -/
def Witness.cut (nameOf : PlaceId → String) (earlier : Trail) (s : TreeStep) (later : Trail)
    (fired : Marking) (p : PlaceId) : Witness where
  place := p
  placeName := nameOf p
  lead := earlier.transitions
  cycle := Trail.transitions (later ++ [s])
  before := s.marking
  after := fired

/-- The witness is cut out of a trail at a marking that is covered strictly, for a place that grew. -/
def Witness.IsCut (nameOf : PlaceId → String) (trail : Trail) (fired : Marking) (w : Witness) : Prop :=
  ∃ later s earlier p, trail = later ++ s :: earlier ∧ s.marking < fired ∧
    s.marking.count p < fired.count p ∧ w = .cut nameOf earlier s later fired p

/-- Adds the witnesses that one step of a trail gives to those found at later ones. -/
def addWitnesses (nameOf : PlaceId → String) (known : List Witness) (trail : Trail) (fired : Marking)
    (found : List Witness) : Nat × TreeStep → List Witness
  | (distance, step) =>
    if fired.strictlyCovers step.marking then
      let witnessed := (known ++ found).map Witness.place
      let places := (step.marking.grownPlaces fired).filter fun p => !witnessed.contains p
      found ++ places.map fun p => {
        place := p
        placeName := nameOf p
        lead := Trail.transitions (trail.drop (distance + 1))
        cycle := Trail.transitions (trail.take (distance + 1))
        before := step.marking
        after := fired }
    else found

theorem newWitnesses_eq_foldl (h : fired.hasOmega = false) : newWitnesses nameOf known trail fired =
    ((List.range trail.length).zip trail).foldl (addWitnesses nameOf known trail fired) [] := by
  unfold newWitnesses
  rw [h]
  rfl

theorem mem_grownPlaces {m n : Marking} (h : m ≤ n) : p ∈ m.grownPlaces n ↔ m.count p < n.count p := by
  unfold Marking.grownPlaces Marking.places
  rw [List.mem_filter, Id.mem_upTo, decide_eq_true_iff, Token.compare_eq_lt_iff]
  refine ⟨And.right, fun hp => ⟨?_, hp⟩⟩
  rw [Marking.size_eq_of_le h]
  exact Marking.index_lt_of_count_lt hp

theorem not_contains_iff {ws : List Witness} :
    (!(ws.map Witness.place).contains p) = true ↔ ∀ w ∈ ws, w.place ≠ p := by
  rw [Bool.not_eq_true', Bool.eq_false_iff, ne_eq, List.contains_iff_mem, List.mem_map]
  exact ⟨fun h w hw hp => h ⟨w, hw, hp⟩, fun h ⟨w, hw, hp⟩ => h w hw hp⟩

theorem mem_addWitnesses (hd : trail[d]? = some s) :
    w ∈ addWitnesses nameOf known trail fired found (d, s) ↔ w ∈ found ∨ s.marking < fired ∧
      s.marking.count w.place < fired.count w.place ∧ (∀ v ∈ known ++ found, v.place ≠ w.place) ∧
      w = .cut nameOf (trail.drop (d + 1)) s (trail.take d) fired w.place := by
  have htake : Trail.transitions (trail.take d ++ [s]) = Trail.transitions (trail.take (d + 1)) := by
    rw [List.take_add_one, hd, Option.toList_some]
  unfold addWitnesses Witness.cut
  rw [htake]
  dsimp only
  split
  · next h =>
    have hlt : s.marking < fired := Marking.strictlyCovers_iff.1 h
    simp only [List.mem_append, List.mem_map, List.mem_filter, mem_grownPlaces hlt.le, not_contains_iff]
    refine or_congr_right ⟨?_, ?_⟩
    · rintro ⟨p, ⟨hp, hnew⟩, rfl⟩
      exact ⟨hlt, hp, hnew, rfl⟩
    · rintro ⟨-, hp, hnew, hw⟩
      exact ⟨w.place, ⟨hp, hnew⟩, hw.symm⟩
  · next h =>
    have hlt : ¬ s.marking < fired := mt Marking.strictlyCovers_iff.2 h
    exact ⟨.inl, fun hw => hw.resolve_right fun hs => hlt hs.1⟩

theorem mem_addWitnesses_of_mem (step : Nat × TreeStep) (h : w ∈ found) :
    w ∈ addWitnesses nameOf known trail fired found step := by
  unfold addWitnesses
  dsimp only
  split
  · exact List.mem_append_left _ h
  · exact h

theorem nodup_addWitnesses (d : Nat) (s : TreeStep) (h : ((known ++ found).map Witness.place).Nodup) :
    ((known ++ addWitnesses nameOf known trail fired found (d, s)).map Witness.place).Nodup := by
  unfold addWitnesses
  dsimp only
  split
  · rw [← List.append_assoc, List.map_append, List.map_map, List.nodup_append]
    refine ⟨h, ?_, ?_⟩
    · show (List.map (fun p => p) _).Nodup
      rw [List.map_id']
      exact ((Id.nodup_upTo _).filter _).filter _
    · intro p hp q hq heq
      rw [List.mem_map] at hp hq
      obtain ⟨v, hv, rfl⟩ := hp
      obtain ⟨q, hq, rfl⟩ := hq
      exact not_contains_iff.1 (List.mem_filter.1 hq).2 v hv heq
  · exact h

/-- What holds of the witnesses before the first step and stays with each step holds in the end. -/
theorem newWitnesses_induction {C : List Witness → Prop} (start : C [])
    (step : ∀ d s found, trail[d]? = some s → C found →
      C (addWitnesses nameOf known trail fired found (d, s))) :
    C (newWitnesses nameOf known trail fired) := by
  by_cases h : fired.hasOmega = true
  · unfold newWitnesses
    rwa [if_pos h]
  · rw [newWitnesses_eq_foldl (Bool.eq_false_iff.2 h)]
    exact List.foldlRecOn _ _ start fun found hfound (d, s) hs =>
      step d s found (mem_range_zip.1 hs) hfound

theorem isCut_of_mem_newWitnesses (h : w ∈ newWitnesses nameOf known trail fired) :
    w.IsCut nameOf trail fired := by
  refine newWitnesses_induction (C := fun found => ∀ w ∈ found, w.IsCut nameOf trail fired) nofun ?_ w h
  intro d s found hd hfound w hw
  rcases (mem_addWitnesses hd).1 hw with hw | ⟨hlt, hp, -, hcut⟩
  · exact hfound w hw
  · refine ⟨trail.take d, s, trail.drop (d + 1), w.place, ?_, hlt, hp, hcut⟩
    obtain ⟨hlen, rfl⟩ := List.getElem?_eq_some_iff.1 hd
    rw [List.getElem_cons_drop, List.take_append_drop]

theorem hasOmega_of_mem_newWitnesses (h : w ∈ newWitnesses nameOf known trail fired) :
    fired.hasOmega = false := by
  by_contra homega
  unfold newWitnesses at h
  rw [if_pos (Bool.eq_true_of_not_eq_false homega)] at h
  cases h

theorem nodup_newWitnesses (h : (known.map Witness.place).Nodup) :
    ((known ++ newWitnesses nameOf known trail fired).map Witness.place).Nodup := by
  refine newWitnesses_induction (C := fun found => ((known ++ found).map Witness.place).Nodup) ?_ ?_
  · rwa [List.append_nil]
  · exact fun d s found _ hfound => nodup_addWitnesses d s hfound

/-- Where a finite marking grew over one of the trail, there is a witness, old or new. -/
theorem exists_witness_of_lt (nameOf : PlaceId → String) (known : List Witness)
    (hfired : fired.hasOmega = false) (hs : s ∈ trail) (hlt : s.marking < fired)
    (hp : s.marking.count p < fired.count p) :
    ∃ w ∈ known ++ newWitnesses nameOf known trail fired, w.place = p := by
  obtain ⟨d, hd⟩ := List.mem_iff_getElem?.1 hs
  obtain ⟨done, rest, hsteps⟩ := List.append_of_mem (mem_range_zip.2 hd)
  rw [newWitnesses_eq_foldl hfired, hsteps, List.foldl_append, List.foldl_cons]
  -- once the step is done the place has its witness, and no later step takes one away
  refine List.foldlRecOn (motive := fun found => ∃ w ∈ known ++ found, w.place = p) _ _ ?_ ?_
  · generalize done.foldl (addWitnesses nameOf known trail fired) [] = found
    by_cases hold : ∃ w ∈ known ++ found, w.place = p
    · obtain ⟨w, hw, hwp⟩ := hold
      refine ⟨w, ?_, hwp⟩
      rw [List.mem_append] at hw ⊢
      exact hw.imp_right (mem_addWitnesses_of_mem _)
    · push Not at hold
      refine ⟨.cut nameOf (trail.drop (d + 1)) s (trail.take d) fired p, ?_, rfl⟩
      exact List.mem_append_right _ ((mem_addWitnesses hd).2 (.inr ⟨hlt, hp, hold, rfl⟩))
  · rintro found ⟨w, hw, hwp⟩ step -
    refine ⟨w, ?_, hwp⟩
    rw [List.mem_append] at hw ⊢
    exact hw.imp_right (mem_addWitnesses_of_mem step)

/-! ## The witnesses of an exploration -/

/-- What a witness says can be played from the initial marking. -/
structure Problem.Replays (p : Problem) (w : Witness) : Prop where
  lead : p.incidence.Run p.capacity p.initial w.lead w.before
  cycle : p.incidence.Run p.capacity w.before w.cycle w.after
  cycle_ne_nil : w.cycle ≠ []
  finite_before : w.before.hasOmega = false
  finite_after : w.after.hasOmega = false
  covers : w.before < w.after
  grows : w.before.count w.place < w.after.count w.place
  name : w.placeName = p.placeName w.place

/-- A witness that is cut out of the trail of a fired marking replays. -/
theorem Problem.replays_of_isCut {p : Problem} (h : p.Derives trail s.marking)
    (fire : p.incidence.Step p.capacity s.marking s.transition fired)
    (hfired : fired.hasOmega = false) (hw : w.IsCut p.placeName (s :: trail) fired) :
    p.Replays w := by
  obtain ⟨later, s', earlier, q, hcut, hlt, hp, rfl⟩ := hw
  obtain ⟨hearlier, hs', hrun⟩ := cut_of_fired h fire hfired hcut
  exact ⟨hearlier.run hs', hrun, by simp [Witness.cut, Trail.transitions], hs', hfired, hlt, hp, rfl⟩

/-- What is known of the witnesses at every moment of an exploration. -/
structure Exploration.Witnessed (p : Problem) (x : Exploration) : Prop where
  derives : ∀ id m trail, x.Found id m trail → p.Derives trail m
  replays : ∀ w ∈ x.witnesses, p.Replays w
  omega : ∀ w ∈ x.witnesses, ∃ id m trail, x.Found id m trail ∧ m.count w.place = .omega
  nodup : (x.witnesses.map Witness.place).Nodup
  exists_witness : ∀ id m trail, x.Found id m trail → m.hasOmega = true → x.witnesses ≠ []

namespace Exploration

variable {p : Problem} {x y : Exploration} {id target : NodeId} {node : CoverNode} {t : TransitionId}

theorem Witnessed.follow (hx : Witnessed p x) (hnode : x.nodes.get? id = some node)
    (fire : p.incidence.Step p.capacity node.marking t fired)
    (hstep : Followed p id node x t fired target y) : Witnessed p y := by
  have hsource : p.Derives node.trail node.marking := hx.derives id _ _ (found_of_get? hnode)
  constructor
  case derives =>
    intro i m trail hf
    rcases hstep.found_cases hf with hold | ⟨-, rfl, rfl⟩
    · exact hx.derives i m trail hold
    · exact .step hsource fire
  case replays =>
    intro w hw
    rw [hstep.witnesses_eq] at hw
    rcases List.mem_append.1 hw with hold | hnew
    · exact hx.replays w hold
    · exact Problem.replays_of_isCut (s := ⟨id, node.marking, t⟩) hsource fire
        (hasOmega_of_mem_newWitnesses hnew) (isCut_of_mem_newWitnesses hnew)
  case omega =>
    intro w hw
    rw [hstep.witnesses_eq] at hw
    rcases List.mem_append.1 hw with hold | hnew
    · obtain ⟨i, m, trail, hf, hm⟩ := hx.omega w hold
      exact ⟨i, m, trail, hstep.grows.found hf, hm⟩
    · obtain ⟨later, s, earlier, q, hcut, hlt, hq, rfl⟩ := isCut_of_mem_newWitnesses hnew
      have hs : s ∈ node.trailVia id t := by
        rw [hcut]
        exact List.mem_append_right _ List.mem_cons_self
      obtain ⟨trail, htarget⟩ := hstep.found_target
      exact ⟨target, _, trail, htarget, Marking.count_accelerate_eq_omega hs hlt hq⟩
  case nodup =>
    rw [hstep.witnesses_eq]
    exact nodup_newWitnesses hx.nodup
  case exists_witness =>
    intro i m trail hf homega hnil
    rw [hstep.witnesses_eq, List.append_eq_nil_iff] at hnil
    rcases hstep.found_cases hf with hold | ⟨-, rfl, rfl⟩
    · exact hx.exists_witness i m trail hold homega hnil.1
    · cases hfired : fired.hasOmega with
      | true =>
        -- the node that was fired at holds `ω` already
        rw [fire.hasOmega_eq] at hfired
        exact hx.exists_witness id _ _ (found_of_get? hnode) hfired hnil.1
      | false =>
        -- the first `ω` on the way: the acceleration that brought it came with a witness
        have hne : fired.accelerate (node.trailVia id t) ≠ fired := by
          intro heq
          rw [heq, hfired] at homega
          cases homega
        obtain ⟨s, hs, hlt⟩ := Marking.exists_lt_of_accelerate_ne hne
        obtain ⟨-, q, hq⟩ := Marking.lt_iff.1 hlt
        obtain ⟨w, hw, -⟩ := exists_witness_of_lt p.placeName x.witnesses hfired hs hlt hq
        rw [hnil.2, hnil.1] at hw
        exact List.not_mem_nil hw

end Exploration

theorem Problem.witnessed_of_run {p : Problem} {x : Exploration} {rounds : Nat}
    (hinitial : p.initial.hasOmega = false) (h : p.run rounds = .ok x) : x.Witnessed p := by
  refine Exploration.run_invariant (I := Exploration.Witnessed p) ?_ ?_ ?_ ?_ h
  · exact fun _ _ hx => ⟨hx.derives, hx.replays, hx.omega, hx.nodup, hx.exists_witness⟩
  · exact fun _ _ _ _ _ _ _ _ hnode hmem hfire hstep hx =>
      hx.follow hnode (step_of_mem_enabledArcs hmem hfire) hstep
  · intro id node status x hnode hx
    have hfound : ∀ i m trail, (x.setStatus id node status).Found i m trail ↔ x.Found i m trail :=
      fun _ _ _ => Exploration.found_setStatus_iff hnode
    refine ⟨?_, hx.replays, ?_, hx.nodup, ?_⟩
    · exact fun i m trail hf => hx.derives i m trail ((hfound i m trail).1 hf)
    · intro w hw
      obtain ⟨i, m, trail, hf, hm⟩ := hx.omega w hw
      exact ⟨i, m, trail, (hfound i m trail).2 hf, hm⟩
    · exact fun i m trail hf => hx.exists_witness i m trail ((hfound i m trail).1 hf)
  · refine ⟨?_, nofun, nofun, .nil, ?_⟩
    · intro i m trail hf
      obtain ⟨-, rfl, rfl⟩ := Exploration.found_start_iff.1 hf
      exact .root
    · intro i m trail hf homega
      obtain ⟨-, rfl, -⟩ := Exploration.found_start_iff.1 hf
      rw [hinitial] at homega
      cases homega

/-! ## The witnesses of a net -/

namespace CoverabilityGraph

variable {net : Net} {cap : Capacity} {rounds : Nat} {config : AnalysisConfig}
  {g : CoverabilityGraph} {w : Witness}

theorem exists_witnessed (h : exploreWithin cap rounds config net = .ok g) :
    ∃ x, ofExploration net x = g ∧ x.Witnessed (net.problem cap config) := by
  obtain ⟨x, hrun, hx⟩ := exploreWithin_eq_ok_iff.1 h
  exact ⟨x, hx, Problem.witnessed_of_run net.hasOmega_initialMarking hrun⟩

theorem mem_unboundedPlaces_of_mem_witnesses (h : exploreWithin cap rounds config net = .ok g)
    (hw : w ∈ g.witnesses) : w.place ∈ g.unboundedPlaces := by
  obtain ⟨x, rfl, hx⟩ := exists_witnessed h
  obtain ⟨id, m, trail, hfound, hm⟩ := hx.omega w hw
  exact mem_unboundedPlaces.2 ⟨m, hasMarking_ofExploration_iff.2 ⟨id, trail, hfound⟩, hm⟩

/-- There is a witness if and only if there is an `ω`. -/
theorem witnesses_eq_nil_iff (h : exploreWithin cap rounds config net = .ok g) :
    g.witnesses = [] ↔ g.hasOmega = false := by
  rw [hasOmega_eq_false_iff]
  constructor
  · intro hnil n hn
    obtain ⟨x, rfl, hx⟩ := exists_witnessed h
    obtain ⟨id, trail, hfound⟩ := hasMarking_ofExploration_iff.1 hn
    by_contra homega
    exact hx.exists_witness id n trail hfound (Bool.eq_true_of_not_eq_false homega) hnil
  · intro hfinite
    rw [List.eq_nil_iff_forall_not_mem]
    intro w hw
    obtain ⟨n, hn, homega⟩ := mem_unboundedPlaces.1 (mem_unboundedPlaces_of_mem_witnesses h hw)
    have htrue : n.hasOmega = true := Marking.hasOmega_iff.2 ⟨w.place, homega⟩
    rw [hfinite n hn] at htrue
    cases htrue

/-- The gain of a witness is what one turn of the cycle really adds. -/
theorem exists_gain {p : Problem} (h : p.Replays w) : 0 < w.gain ∧
    ∃ c, w.before.count w.place = .finite c ∧ w.after.count w.place = .finite (c + w.gain) := by
  obtain ⟨b, hb⟩ := Marking.hasOmega_eq_false_iff.1 h.finite_before w.place
  obtain ⟨a, ha⟩ := Marking.hasOmega_eq_false_iff.1 h.finite_after w.place
  have hlt : b < a := by
    have hgrows := h.grows
    rwa [hb, ha, Token.finite_lt_finite] at hgrows
  have hgain : w.gain = a - b := by
    unfold Witness.gain
    rw [hb, ha]
    rfl
  refine ⟨by omega, b, hb, ?_⟩
  rw [ha, hgain, Nat.add_sub_cancel' hlt.le]

/-- Every witness of a graph replays in the net: its lead can be fired from the initial marking and
its cycle after that, it gains on the place that it names, and no other witness is for that place. -/
theorem witnesses_replay (h : buildWithin rounds config net = .ok g) :
    (∀ w ∈ g.witnesses,
      net.fireSequence net.initialMarking (w.lead.map .number) = .ok w.before ∧
      net.fireSequence w.before (w.cycle.map .number) = .ok w.after ∧
      w.cycle ≠ [] ∧ w.before.hasOmega = false ∧ w.after.hasOmega = false ∧
      w.after.strictlyCovers w.before = true ∧ 0 < w.gain ∧
      (∃ c, w.before.count w.place = .finite c ∧ w.after.count w.place = .finite (c + w.gain)) ∧
      net.placeIds[w.place.index]? = some w.placeName ∧ w.place ∈ g.unboundedPlaces) ∧
    (g.witnesses.map Witness.place).Nodup := by
  obtain ⟨x, rfl, hx⟩ := exists_witnessed h
  refine ⟨fun w hw => ?_, hx.nodup⟩
  have hreplays : (net.problem .word config).Replays w := hx.replays w hw
  have hbefore : w.before.size = net.placeCount :=
    hreplays.lead.size_eq.trans net.size_initialMarking
  have hplace : w.place.index < net.placeCount := by
    have hlt : w.place.index < w.after.size := Marking.index_lt_of_count_lt hreplays.grows
    rwa [hreplays.cycle.size_eq, hbefore] at hlt
  have hname : net.placeIds[w.place.index]? = some w.placeName := by
    rw [hreplays.name]
    exact Net.placeIds_getElem? hplace
  obtain ⟨hpos, hgain⟩ := exists_gain hreplays
  refine ⟨?_, ?_, hreplays.cycle_ne_nil, hreplays.finite_before, hreplays.finite_after,
    Marking.strictlyCovers_iff.2 hreplays.covers, hpos, hgain, hname,
    mem_unboundedPlaces_of_mem_witnesses h hw⟩
  · exact (Net.fireSequenceWithin_eq_ok_iff net.size_initialMarking).2 hreplays.lead
  · exact (Net.fireSequenceWithin_eq_ok_iff hbefore).2 hreplays.cycle

/-- The pump has one witness: after `start`, each `fill` leaves two more tokens in the tank. -/
theorem witnesses_replay_pumpNet : ∃ net g w, pumpNet = .ok net ∧
    buildWithin 4 default net = .ok g ∧ g.witnesses = [w] ∧ w.placeName = "tank" ∧ w.gain = 2 ∧
    net.fireSequence net.initialMarking [.number ⟨0⟩] = .ok w.before ∧
    net.fireSequence w.before [.number ⟨1⟩] = .ok w.after ∧ w.place ∈ g.unboundedPlaces := by
  have hpump : ∃ net g w, pumpNet = .ok net ∧ buildWithin 4 default net = .ok g ∧
      g.witnesses = [w] ∧ w.placeName = "tank" ∧ w.gain = 2 ∧ w.lead = [⟨0⟩] ∧ w.cycle = [⟨1⟩] :=
    ⟨_, _, _, rfl, rfl, rfl, rfl, rfl, rfl, rfl⟩
  obtain ⟨net, g, w, hnet, hg, hw, hname, hgain, hlead, hcycle⟩ := hpump
  have hmem : w ∈ g.witnesses := by
    rw [hw]
    exact List.mem_singleton_self w
  obtain ⟨hl, hc, -, -, -, -, -, -, -, hplace⟩ := (witnesses_replay hg).1 w hmem
  rw [hlead] at hl
  rw [hcycle] at hc
  exact ⟨net, g, w, hnet, hg, hw, hname, hgain, hl, hc, hplace⟩

end CoverabilityGraph

end PetriNets
