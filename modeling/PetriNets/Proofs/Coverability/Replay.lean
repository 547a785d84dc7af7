import PetriNets.Proofs.Coverability.Deadlocks
import PetriNets.Proofs.Net.Firing

/-!
# Replaying the way to a node

The transitions on the way down the spanning tree need not be a firing sequence: where acceleration has
put `ω` on a place, later transitions may take from it what the way itself has not brought there. Nothing
else goes wrong. As far as the way can be fired, the marking that it leads to agrees with the node on every
place without `ω`, and a transition that fires at the node is refused there only at a place that holds `ω`
in the node (`Arcs.fire_of_approximates`). Since `ω` stays, this place still holds it at the end of the
way (`Derives.replays`).
-/

namespace PetriNets

/-- The place at which a step fails. -/
def StepFault.place : StepFault → PlaceId
  | starved p _ _ => p
  | overflow p => p

/-! ## Approximations that promise nothing where there is `ω` -/

namespace Token

variable {t u : Token} {w v : Nat}

theorem approximates_zero_iff : t.Approximates 0 u ↔ (∃ c, u = .finite c) ∧ (t = .omega ∨ u = t) := by
  cases t with
  | finite n =>
    constructor
    · exact fun h => ⟨⟨n, h⟩, .inr h⟩
    · rintro ⟨-, h | h⟩
      · cases h
      · exact h
  | omega =>
    constructor
    · exact fun ⟨c, _, hc⟩ => ⟨⟨c, hc⟩, .inl rfl⟩
    · exact fun ⟨⟨c, hc⟩, _⟩ => ⟨c, Nat.zero_le c, hc⟩

theorem Approximates.fired (h : t.Approximates 0 u) :
    ((t.minus w).plus v).Approximates 0 ((u.minus w).plus v) := by
  obtain ⟨⟨c, rfl⟩, rfl | rfl⟩ := approximates_zero_iff.1 h
  · exact ⟨_, Nat.zero_le _, rfl⟩
  · rfl

end Token

/-- A marking without `ω` is approximated by itself alone. -/
theorem Marking.Approximates.eq_of_hasOmega_eq_false {k : Nat} {m l : Marking}
    (h : m.Approximates k l) (hm : m.hasOmega = false) : l = m := by
  refine Marking.ext_count h.1 fun p _ => ?_
  obtain ⟨c, hc⟩ := Marking.hasOmega_eq_false_iff.1 hm p
  have hp := h.count p
  rw [hc] at hp ⊢
  exact hp

theorem Marking.Approximates.accelerate {m l : Marking} (h : m.Approximates 0 l) (trail : Trail) :
    (m.accelerate trail).Approximates 0 l := by
  refine ⟨h.1.trans (Marking.size_accelerate _ _).symm, fun p _ => ?_⟩
  obtain ⟨hfinite, hsame⟩ := Token.approximates_zero_iff.1 (h.count p)
  rcases Marking.count_accelerate m trail p with heq | homega
  · exact heq ▸ h.count p
  · exact Token.approximates_zero_iff.2 ⟨hfinite, .inl homega⟩

namespace Arcs

variable {a : Arcs} {cap : Capacity} {m m' l : Marking}

/-- What fires at a marking fires at an approximation of it, or is refused at a place where the marking
holds `ω`. -/
theorem fire_of_approximates (hpre : (a.pre.map Prod.fst).Nodup)
    (hpost : (a.post.map Prod.fst).Nodup) (happrox : m.Approximates 0 l)
    (hfire : a.fire cap m = .ok m') : (∃ l', a.fire cap l = .ok l' ∧ m'.Approximates 0 l') ∨
      ∃ fault, a.fire cap l = .error fault ∧ m.count fault.place = .omega := by
  have hsame := fun p => (Token.approximates_zero_iff.1 (happrox.count p)).2
  cases hl : a.fire cap l with
  | ok l' =>
    obtain ⟨-, hs, hc⟩ := fire_eq_ok_iff.1 (fire_none_of_fire hfire)
    obtain ⟨-, hs', hc'⟩ := fire_eq_ok_iff.1 (fire_none_of_fire hl)
    refine .inl ⟨l', rfl, hs'.trans (happrox.1.trans hs.symm), fun p hp => ?_⟩
    rw [hs] at hp
    rw [hc p hp, hc' p (happrox.1.symm ▸ hp)]
    exact (happrox.count p).fired
  | error fault =>
    refine .inr ⟨fault, rfl, ?_⟩
    -- a place where the counts are the same refuses neither or both
    rcases fire_eq_error_cases hpre hpost hl with ⟨arc, harc, hcovers, rfl⟩ |
      ⟨arc, harc, hspills, rfl⟩
    · refine (hsame arc.1).resolve_right fun heq => ?_
      have hcovered := List.all_eq_true.1 (isEnabled_of_fire hfire) arc harc
      rw [heq, hcovered] at hcovers
      cases hcovers
    · refine (hsame arc.1).resolve_right fun heq => ?_
      have hfits := spills_eq_false_of_fire hpre hpost hfire harc
      unfold spills at hspills hfits
      rw [heq, hfits] at hspills
      cases hspills

end Arcs

/-! ## Sequences that stop at a fault -/

namespace Incidence

/-- The transitions of a sequence before this position can be fired, and then this one is refused. -/
inductive Stops (inc : Incidence) (cap : Capacity) (m : Marking) :
    List TransitionId → Nat → TransitionId → StepFault → Prop where
  | intro {done : List TransitionId} {l : Marking} {t : TransitionId} {a : Arcs} {fault : StepFault}
      (run : inc.Run cap m done l) (arcs : inc.arcs.get? t = some a)
      (refused : a.fire cap l = .error fault) (rest : List TransitionId) :
      Stops inc cap m (done ++ t :: rest) done.length t fault

variable {inc : Incidence} {cap : Capacity} {m : Marking} {ts : List TransitionId} {i : Nat}
  {t : TransitionId} {fault : StepFault}

theorem Stops.append (h : inc.Stops cap m ts i t fault) (us : List TransitionId) :
    inc.Stops cap m (ts ++ us) i t fault := by
  cases h with
  | intro run arcs refused rest =>
    rw [List.append_assoc, List.cons_append]
    exact .intro run arcs refused (rest ++ us)

theorem Stops.getElem? (h : inc.Stops cap m ts i t fault) : ts[i]? = some t := by
  cases h with
  | intro => simp

end Incidence

namespace Problem

variable {p : Problem} {trail : Trail} {m : Marking}

/-- The way to a marking can be fired to an approximation of it, or it stops at a place where the marking
holds `ω`. -/
theorem Derives.replays (hrows : ∀ t a, p.incidence.arcs.get? t = some a →
      (a.pre.map Prod.fst).Nodup ∧ (a.post.map Prod.fst).Nodup)
    (hinitial : p.initial.hasOmega = false) (h : p.Derives trail m) :
    (∃ l, p.incidence.Run p.capacity p.initial trail.transitions l ∧ m.Approximates 0 l) ∨
      ∃ i t fault, p.incidence.Stops p.capacity p.initial trail.transitions i t fault ∧
        m.count fault.place = .omega := by
  induction h with
  | root => exact .inl ⟨p.initial, .nil _, Marking.approximates_self hinitial⟩
  | @step s trail fired earlier fire ih =>
    rw [transitions_cons]
    rcases ih with ⟨l, hrun, hl⟩ | ⟨i, t, fault, hstops, homega⟩
    · obtain ⟨a, ha, hfire⟩ := fire
      obtain ⟨hpre, hpost⟩ := hrows _ a ha
      rcases Arcs.fire_of_approximates hpre hpost hl hfire with ⟨l', hfire', hl'⟩ | ⟨fault, hrefused, homega⟩
      · exact .inl ⟨l', Incidence.Run.concat_iff.2 ⟨l, hrun, a, ha, hfire'⟩, hl'.accelerate _⟩
      · exact .inr ⟨_, _, fault, .intro hrun ha hrefused [],
          Incidence.Step.count_accelerate_eq_omega ⟨a, ha, hfire⟩ _ homega⟩
    · exact .inr ⟨i, t, fault, hstops.append _, fire.count_accelerate_eq_omega _ homega⟩

/-- Whatever is on the way to a marking is a transition of the net. -/
theorem Derives.exists_arcs (h : p.Derives trail m) {t : TransitionId} (ht : t ∈ trail.transitions) :
    ∃ a, p.incidence.arcs.get? t = some a := by
  induction h with
  | root => cases ht
  | step _ fire ih =>
    rw [transitions_cons] at ht
    rcases List.mem_append.1 ht with ht | ht
    · exact ih ht
    · obtain ⟨a, ha, -⟩ := fire
      exact List.mem_singleton.1 ht ▸ ⟨a, ha⟩

end Problem

/-! ## In a net -/

namespace Net

variable {net : Net} {cap : Capacity} {m : Marking} {ts : List TransitionId} {i : Nat}
  {t : TransitionId} {fault : StepFault}

theorem fireSequenceWithin_eq_error_of_stops (hm : m.size = net.placeCount)
    (h : net.incidence.Stops cap m ts i t fault) :
    net.fireSequenceWithin cap m (ts.map .number) =
      .error (.inSequence i (net.faultError t fault)) := by
  cases h with
  | @intro done l _ a _ run arcs refused rest =>
    obtain ⟨ht, rfl⟩ := arcs_get?_eq_some_iff.1 arcs
    have hrefused : net.fireWithin cap l (.number t) = .error (net.faultError t fault) := by
      rw [fireWithin_eq_mapError (run.size_eq.trans hm) (resolve_number_eq_ok_iff.2 ⟨ht, rfl⟩), refused]
      rfl
    have hstops := fireSequenceWithin_eq_error_of_fireWithin (rest.map .number)
      ((fireSequenceWithin_eq_ok_iff hm).2 run) hrefused
    rw [List.map_append, List.map_cons, hstops, List.length_map]

/-- The transitions of a sequence as they are meant by their names. -/
def named (net : Net) (ts : List TransitionId) : List TransitionRef :=
  (ts.map net.transitionName).map .name

/-- Firing by names is firing by numbers. -/
theorem fireSequenceWithin_named (h : net.WellFormed)
    (hts : ∀ t ∈ ts, t.index < net.transitionCount) :
    net.fireSequenceWithin cap m (net.named ts) = net.fireSequenceWithin cap m (ts.map .number) := by
  refine fireSequenceFrom_congr ?_
  unfold named
  rw [List.map_map, List.map_map, List.map_map]
  refine List.map_congr_left fun t ht => ?_
  exact (resolve_name_eq_ok_iff.2 (transitionIndex?_transitionName h (hts t ht))).trans
    (resolve_number_eq_ok_iff.2 ⟨hts t ht, rfl⟩).symm

end Net

namespace CoverabilityGraph

variable {net : Net} {cap : Capacity} {rounds : Nat} {config : AnalysisConfig}
  {g : CoverabilityGraph} {i : NodeId} {n : CoverNode}

theorem index_lt_of_mem_firingSequence (h : exploreWithin cap rounds config net = .ok g)
    {t : TransitionId} (ht : t ∈ g.firingSequence i) : t.index < net.transitionCount := by
  obtain ⟨x, hrun, rfl⟩ := exploreWithin_eq_ok_iff.1 h
  unfold firingSequence at ht
  split at ht
  · next n hn =>
    obtain ⟨a, ha⟩ := (Problem.derives_of_run hrun (Exploration.found_of_get? hn)).exists_arcs ht
    exact (Net.arcs_get?_eq_some_iff.1 ha).1
  · cases ht

/-- The way to a node, fired from the initial marking by the names of its transitions, leads to a marking
that agrees with the node on every place without `ω`, or it stops at a place where the node holds `ω`. -/
theorem replays_firingSequence (hwell : net.WellFormed)
    (h : exploreWithin cap rounds config net = .ok g) (hi : g.nodes.get? i = some n) :
    (∃ m, net.fireSequenceWithin cap net.initialMarking (net.named (g.firingSequence i)) = .ok m ∧
      n.marking.Approximates 0 m) ∨
    ∃ k t fault, (g.firingSequence i)[k]? = some t ∧
      net.fireSequenceWithin cap net.initialMarking (net.named (g.firingSequence i)) =
        .error (.inSequence k (net.faultError t fault)) ∧ n.marking.count fault.place = .omega := by
  rw [Net.fireSequenceWithin_named hwell fun t => index_lt_of_mem_firingSequence h]
  rw [firingSequence_of_get? hi]
  obtain ⟨x, hrun, rfl⟩ := exploreWithin_eq_ok_iff.1 h
  have hderives := Problem.derives_of_run hrun (Exploration.found_of_get? hi)
  have hrows : ∀ t a, net.incidence.arcs.get? t = some a →
      (a.pre.map Prod.fst).Nodup ∧ (a.post.map Prod.fst).Nodup := by
    intro t a ha
    obtain ⟨-, rfl⟩ := Net.arcs_get?_eq_some_iff.1 ha
    exact ⟨hwell.nodup_pre _, hwell.nodup_post _⟩
  rcases hderives.replays hrows net.hasOmega_initialMarking with
    ⟨m, hreplay, hm⟩ | ⟨k, t, fault, hstops, homega⟩
  · exact .inl ⟨m, (Net.fireSequenceWithin_eq_ok_iff net.size_initialMarking).2 hreplay, hm⟩
  · exact .inr ⟨k, t, fault, hstops.getElem?,
      Net.fireSequenceWithin_eq_error_of_stops net.size_initialMarking hstops, homega⟩

end CoverabilityGraph

end PetriNets
