import PetriNets.Proofs.Coverability.System
import PetriNets.Proofs.Cycles.Smallest
import PetriNets.Proofs.Effect
import PetriNets.Proofs.Parikh

/-!
# Cycles of a net

A cycle of the reachability system of a net is one in its token game: each of its arcs is a firing. Along
a walk the tokens of a place change by the effects of the transitions that are fired (`count_of_walk`),
and where the walk comes back to its first state they have not changed at all. If a label tells its
transition, these effects are known from the Parikh vector of the cycle, which is therefore a solution of
the state equation with zero on its right side.
-/

namespace PetriNets.CoverabilityGraph

variable {net : Net} {cap : Capacity} {rounds : Nat} {config : AnalysisConfig}
  {g : CoverabilityGraph} {v w : String} {m m' : Marking} {p : PlaceId} {steps : List WalkStep}

section

variable (h : exploreWithin cap rounds config net = .ok g) (homega : g.hasOmega = false)
include h homega

theorem exists_count_of_marking? (hm : g.system.marking? v = some m) (p : PlaceId) :
    ∃ n, m.count p = .finite n := by
  obtain ⟨i, n, hn, -, rfl⟩ := (marking?_system_eq_some_iff h).1 hm
  exact Net.exists_count_of_mem_reachable
    ((hasMarking_iff_mem_reachable h homega).1 (hasMarking_of_get? hn)) p

variable (hlabels : (net.transitions.map Transition.label).Nodup)
include hlabels

/-- Along a walk a place gains what the labels of the walk stand for. -/
theorem count_of_walk (hwalk : g.system.Walk v steps w) (hm : g.system.marking? v = some m)
    (hm' : g.system.marking? w = some m') (hp : p.index < net.placeCount) {n n' : Nat}
    (hn : m.count p = .finite n) (hn' : m'.count p = .finite n') :
    (n' : Int) = n + net.labelEffect (steps.map Prod.snd) p := by
  induction hwalk generalizing m n with
  | nil v =>
    obtain rfl := Option.some.inj (hm.symm.trans hm')
    obtain rfl := Token.finite.inj (hn.symm.trans hn')
    simp
  | cons arc rest ih =>
    obtain ⟨l, l', t, hl, hl', ht, hfire⟩ := (hasArc_system_iff_fire h homega).1 arc
    obtain rfl := Option.some.inj (hm.symm.trans hl)
    obtain ⟨k, hk⟩ := exists_count_of_marking? h homega hl' p
    -- the count between the first arc and the others is what the two changes have in common
    have hstep := Net.count_eq_of_fireWithin hfire hp hn hk
    have hrest := ih hl' hm' hk
    rw [List.map_cons, Net.labelEffect_cons hlabels ht]
    omega

/-- A closed walk leaves every place as it was. -/
theorem labelEffect_of_closedWalk (hclosed : g.system.ClosedWalk steps)
    (hp : p.index < net.placeCount) : net.labelEffect (steps.map Prod.snd) p = 0 := by
  obtain ⟨hne, v, hwalk⟩ := hclosed
  obtain ⟨l, u, rest, rfl, harc, -⟩ := hwalk.exists_cons hne
  obtain ⟨m, -, -, hm, -⟩ := (hasArc_system_iff_fire h homega).1 harc
  obtain ⟨n, hn⟩ := exists_count_of_marking? h homega hm p
  have hcount := count_of_walk h homega hlabels hwalk hm hm hp hn hn
  omega

end

/-- The smallest cycles of a reachability system are real and change nothing. From each of its states a
cycle goes on, and after the last one back to the first, by firing a transition with the label that
stands there; and if the labels of the net are different, then for each place the effects of all
transitions on it, each taken as often as its label occurs in the cycle, add up to zero. -/
theorem cycles_balanced {ts : TransitionSystem} {components : List (List String)} {searchRounds : Nat}
    {mode : CycleMode} {s : SmallestCycles} {c : Cycle} (h : buildWithin rounds config net = .ok g)
    (hts : g.reachabilitySystem = .ok ts) (hcomponents : ts.ListsComponents components)
    (hs : TransitionSystem.smallestCyclesBy components searchRounds ts mode = .ok s)
    (hc : c ∈ s.cycles) :
    0 < c.length ∧ c.states.length = c.length ∧
    (∀ i < c.length, ∃ v l w m m' t, c.states[i]? = some v ∧ c.labels[i]? = some l ∧
      c.states[(i + 1) % c.length]? = some w ∧ ts.marking? v = some m ∧ ts.marking? w = some m' ∧
      (net.transitionAt? t).map Transition.label = some l ∧ net.fire m (.number t) = .ok m') ∧
    ((net.transitions.map Transition.label).Nodup → ∀ p : PlaceId, p.index < net.placeCount →
      ∑ k : Fin net.transitions.length,
        (c.parikh.get (net.transitions.get k).label : Int) * net.effectOn ⟨k⟩ p = 0) := by
  have hexplore : exploreWithin .word rounds config net = .ok g := h
  obtain ⟨homega, rfl⟩ := (reachabilitySystem_eq_ok_iff h).1 hts
  obtain ⟨hwell, -⟩ := system_spec_of_explore hexplore
  obtain ⟨steps, hclosed, rfl⟩ := (hwell.isSmallest_of_mem hcomponents hs hc).exists_closedWalk
  have hlength : Cycle.length ⟨steps.map Prod.fst, steps.map Prod.snd,
      .ofSequence (steps.map Prod.snd)⟩ = steps.length := List.length_map _
  rw [hlength]
  refine ⟨List.length_pos_iff.2 hclosed.1, List.length_map _, fun i hi => ?_, fun hlabels p hp => ?_⟩
  · obtain ⟨w, hw, harc⟩ := hclosed.hasArc_next (List.getElem?_eq_getElem hi)
    obtain ⟨m, m', t, hm, hm', ht, hfire⟩ := (hasArc_system_iff_fire hexplore homega).1 harc
    refine ⟨_, _, w, m, m', t, ?_, ?_, hw, hm, hm', ht, hfire⟩
    · rw [List.getElem?_map, List.getElem?_eq_getElem hi]
      rfl
    · rw [List.getElem?_map, List.getElem?_eq_getElem hi]
      rfl
  · have hzero := labelEffect_of_closedWalk hexplore homega hlabels hclosed hp
    unfold Net.labelEffect at hzero
    simpa only [ParikhVector.get_ofSequence] using hzero

/-- Two buckets: `pour` tips the two tokens of one into the other, from where `drip` lets them run back
one by one. -/
def bucketNet : Except GraphError Net := do
  let (_, net) ← (Net.empty "buckets").addPlace ⟨"high", 2, ∅⟩
  let (_, net) ← net.createPlace "low"
  let (_, net) ← net.createTransition "pour"
  let (_, net) ← net.createTransition "drip"
  let net ← net.createFlow "high" "pour" 2
  let net ← net.createFlow "pour" "low" 2
  let net ← net.createFlow "low" "drip" 1
  net.createFlow "drip" "high" 1

/-- There is one cycle: it pours once and drips twice. -/
theorem cycles_balanced_bucketNet : ∃ net g ts s c, bucketNet = .ok net ∧
    buildWithin 4 default net = .ok g ∧ g.reachabilitySystem = .ok ts ∧
    ts.smallestCycles .allStates = .ok s ∧ s.cycles = [c] ∧ c.labels = ["pour", "drip", "drip"] ∧
    (∃ t m m', (net.transitionAt? t).map Transition.label = some "drip" ∧
      net.fire m (.number t) = .ok m') ∧
    ∑ k : Fin net.transitions.length,
      (c.parikh.get (net.transitions.get k).label : Int) * net.effectOn ⟨k⟩ ⟨1⟩ = 0 := by
  have hbuckets : ∃ net g ts, bucketNet = .ok net ∧ buildWithin 4 default net = .ok g ∧
      g.reachabilitySystem = .ok ts ∧ net.transitions.map Transition.label = ["pour", "drip"] ∧
      net.placeCount = 2 ∧ ts.smallestCycles .allStates =
        .ok ⟨[.ofSteps [("s0", "pour"), ("s1", "drip"), ("s2", "drip")]], none⟩ :=
    ⟨_, _, _, rfl, rfl, rfl, rfl, rfl, by decide +kernel⟩
  obtain ⟨net, g, ts, hnet, hg, hts, hlabels, hplaces, hs⟩ := hbuckets
  have hwell : ts.WellFormed := by
    obtain ⟨-, rfl⟩ := (reachabilitySystem_eq_ok_iff hg).1 hts
    exact (system_spec_of_explore hg).1
  obtain ⟨-, -, hfires, hzero⟩ :=
    cycles_balanced hg hts hwell.listsComponents hs (List.mem_singleton_self _)
  obtain ⟨v, l, w, m, m', t, -, hl, -, -, -, ht, hfire⟩ := hfires 1 (by decide)
  obtain rfl : "drip" = l := Option.some.inj hl
  exact ⟨net, g, ts, _, _, hnet, hg, hts, hs, rfl, by decide, ⟨t, m, m', ht, hfire⟩,
    hzero (by rw [hlabels]; decide) ⟨1⟩ (by rw [hplaces]; decide)⟩

end PetriNets.CoverabilityGraph
