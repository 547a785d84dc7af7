import Mathlib.Data.Fintype.BigOperators
import PetriNets.Proofs.Coverability.Precision
import PetriNets.Proofs.Coverability.Termination
import PetriNets.Proofs.Net.Firing

/-!
# An exploration fails by overflow alone

The rounds that a coverability graph is built in are enough for every net, since counts stay below the
capacity or where they were, and so there are only so many markings (`Problem.run_enoughRounds_ne`).
Without a limit on the nodes a run is then stopped by a fault alone. The fault is an overflow, because
what is enabled can be taken; and it is no artefact of `ω`, because the node at which it occurs has
already been derived, so that a firing sequence of the net leads to a marking with the same finite counts
and enough tokens elsewhere (`Net.exists_reaches_overflow`).
-/

namespace PetriNets

namespace Token

/-- A count as a number; `ω` comes after the bound. -/
def code (bound : Nat) : Token → Nat
  | finite c => c
  | omega => bound + 1

variable {s t : Token} {bound : Nat}

theorem code_lt (h : ∀ c, t = finite c → c ≤ bound) : t.code bound < bound + 2 := by
  cases t with
  | finite c =>
    have hc := h c rfl
    show c < bound + 2
    omega
  | omega => exact Nat.lt_succ_self _

theorem eq_of_code_eq (hs : ∀ c, s = finite c → c ≤ bound) (ht : ∀ c, t = finite c → c ≤ bound)
    (h : s.code bound = t.code bound) : s = t := by
  cases s with
  | finite c =>
    have hc := hs c rfl
    cases t with
    | finite d => exact congrArg finite h
    | omega =>
      have hcode : c = bound + 1 := h
      omega
  | omega =>
    cases t with
    | finite d =>
      have hd := ht d rfl
      have hcode : bound + 1 = d := h
      omega
    | omega => rfl

end Token

namespace Problem

variable {p : Problem} {trail : Trail} {m : Marking} {x : Exploration} {limit bound : Nat}

/-! ## Enough rounds -/

theorem Derives.size_eq (h : p.Derives trail m) : m.size = p.initial.size := by
  induction h with
  | root => rfl
  | step _ fire ih => rw [Marking.size_accelerate, fire.size_eq, ih]

/-- Counts stay within the capacity, unless there were more tokens at the beginning. -/
theorem Derives.count_le (hcap : p.capacity = some limit) (hlimit : limit ≤ bound)
    (hinitial : largestCount p.initial ≤ bound) (h : p.Derives trail m) {q : PlaceId} {c : Nat}
    (hc : m.count q = .finite c) : c ≤ bound := by
  induction h generalizing c with
  | root => exact (le_largestCount hc).trans hinitial
  | @step s trail fired _ fire ih =>
    rcases Marking.count_accelerate fired (s :: trail) q with hsame | homega
    · obtain ⟨a, -, hfire⟩ := fire
      rw [hcap] at hfire
      exact Arcs.count_le_of_fire hfire hlimit (fun c hc => ih hc) (hsame ▸ hc)
    · rw [homega] at hc
      cases hc

/-- Nodes with different markings and bounded counts: there are no more of them than markings with
counts up to the bound or `ω`. -/
theorem size_le_pow (hcap : p.capacity = some limit) (hlimit : limit ≤ bound)
    (hinitial : largestCount p.initial ≤ bound) (hspan : Exploration.Spanning p x)
    (hderives : p.DerivesAll x) : x.nodes.size ≤ (bound + 2) ^ p.initial.size := by
  have hnode : ∀ k : Fin x.nodes.size, ∃ n, x.nodes.get? ⟨k⟩ = some n :=
    fun k => Table.exists_get?_of_lt k.2
  choose n hn using hnode
  have hfound := fun k => Exploration.found_of_get? (hn k)
  have hsize := fun k => (hderives _ _ _ (hfound k)).size_eq
  have hcount := fun k q c =>
    (hderives _ _ _ (hfound k)).count_le hcap hlimit hinitial (q := q) (c := c)
  let codes (k : Fin x.nodes.size) (q : Fin p.initial.size) : Fin (bound + 2) :=
    ⟨((n k).marking.count ⟨q⟩).code bound, Token.code_lt (hcount k _)⟩
  have hinj : Function.Injective codes := by
    intro k l hkl
    have hmarking : (n k).marking = (n l).marking := by
      refine Marking.ext_count ((hsize k).trans (hsize l).symm) fun q hq => ?_
      have hcode := congrFun hkl ⟨q.index, hsize k ▸ hq⟩
      exact Token.eq_of_code_eq (hcount k q) (hcount l q) (Fin.mk.inj hcode)
    exact Fin.ext (congrArg Id.index (hspan.distinct (hfound k) (hmarking ▸ hfound l)))
  have hcard := Fintype.card_le_of_injective codes hinj
  rwa [Fintype.card_fun, Fintype.card_fin, Fintype.card_fin, Fintype.card_fin] at hcard

/-- The rounds that are enough are enough. -/
theorem run_enoughRounds_ne (hcap : p.capacity = some limit) :
    p.run (enoughRounds limit p.initial) ≠ .error .cancelled := by
  have hsize : ∀ x, Exploration.Spanning p x ∧ p.DerivesAll x →
      x.nodes.size ≤ (max limit (largestCount p.initial) + 2) ^ p.initial.size := fun x hx =>
    size_le_pow hcap (Nat.le_max_left _ _) (Nat.le_max_right _ _) hx.1 hx.2
  obtain ⟨result, hresult, hrun⟩ :=
    ((Exploration.kept_spanning p).and p.kept_derivesAll).exists_run_eq hsize
      ⟨Exploration.spanning_start p, p.derivesAll_start⟩ (Nat.add_comm 1 _)
  have hend : p.run (enoughRounds limit p.initial) = result := hrun _ (Nat.le_refl _)
  rw [hend]
  exact hresult

end Problem

/-! ## What stops a run -/

namespace Net

variable {net : Net} {cap : Capacity} {config : AnalysisConfig} {t : TransitionId} {a : Arcs}
  {m : Marking} {fault : StepFault} {x : Exploration} {q : PlaceId}

/-- What is enabled and cannot be fired overflows a place: with what is taken and given, the place
would hold more than its capacity. -/
theorem overflow_of_isEnabled (h : net.Built) (ha : net.incidence.arcs.get? t = some a)
    (henabled : a.isEnabled m = true) (hfire : a.fire cap m = .error fault) :
    ∃ q, fault = .overflow q ∧ q.index < net.placeCount ∧
      (((m.count q).minus (a.pre.weight q)).plus (a.post.weight q)).within cap = false := by
  obtain ⟨-, rfl⟩ := arcs_get?_eq_some_iff.1 ha
  have hpre := h.wellFormed.nodup_pre (net.transitionName t)
  have hpost := h.wellFormed.nodup_post (net.transitionName t)
  rcases Arcs.fire_eq_error_cases hpre hpost hfire with ⟨arc, harc, hcovers, -⟩ |
    ⟨⟨q, w⟩, harc, hspill, rfl⟩
  · have hcovered := List.all_eq_true.1 henabled arc harc
    rw [hcovers] at hcovered
    cases hcovered
  · refine ⟨q, rfl, (net.inRange_arcsNamed _).2 _ harc, ?_⟩
    unfold Arcs.spills at hspill
    rw [Row.weight_eq_of_mem hpost harc]
    exact (Bool.not_eq_true' _).mp hspill

/-- Behind a transition that overflows a place of a node there is a firing sequence of the net that
ends with this transition and overflows this place: the marking of the node is approximated well enough
for what the transition takes, and finite counts are the same. -/
theorem exists_reaches_overflow (h : net.Built) {x : Exploration}
    (hderives : (net.problem cap config).DerivesAll x)
    (hstuck : Exploration.Stuck (net.problem cap config) x t fault) :
    ∃ q, fault = .overflow q ∧ t.index < net.transitionCount ∧ q.index < net.placeCount ∧
      ∃ ts m c, net.Reaches (ts ++ [t]) m ∧ m.count q = .finite c ∧ cap.holds c = false := by
  obtain ⟨id, node, a, hnode, hmem, hfire⟩ := hstuck
  obtain ⟨ha, henabled⟩ := Incidence.mem_enabledArcs.1 hmem
  obtain ⟨ht, hnamed⟩ := arcs_get?_eq_some_iff.1 ha
  obtain ⟨q, hfault, hq, hover⟩ := overflow_of_isEnabled h ha henabled hfire
  refine ⟨q, hfault, ht, hq, ?_⟩
  have hfound := hderives _ _ _ (Exploration.found_of_get? hnode)
  have hcovers : ∀ p, (node.marking.count p).covers (a.pre.weight p) = true := by
    rw [hnamed]
    exact Row.covers_weight_of_isCovered (h.wellFormed.nodup_pre _) (hnamed ▸ henabled)
  obtain ⟨w, hw⟩ := a.pre.exists_weight_le
  obtain ⟨k, hk⟩ := hfound.approaches.1 w
  obtain ⟨ts, m, hts, hm⟩ := hk _ (Marking.approximates_self net.hasOmega_initialMarking)
  obtain ⟨m', hfire'⟩ : ∃ m', a.fire none m = .ok m' :=
    Arcs.exists_fire fun p => Token.covers_of_approximates (hm.count p) (hcovers p) (hw p)
  have hsize : m.size = net.placeCount := hts.size_eq.trans net.size_initialMarking
  have hcount := (Arcs.fire_eq_ok_iff.1 hfire').2.2 q (hsize.symm ▸ hq)
  have hreach : net.Reaches (ts ++ [t]) m' :=
    reaches_iff.2 (Incidence.Run.concat_iff.2 ⟨m, hts, a, ha, hfire'⟩)
  cases hn : node.marking.count q with
  | omega =>
    rw [hn] at hover
    cases hover
  | finite c =>
    have hc : m.count q = .finite c := by
      have happrox := hm.count q
      rwa [hn] at happrox
    rw [hn] at hover
    rw [hc] at hcount
    exact ⟨ts, m', _, hreach, hcount, hover⟩

end Net

namespace CoverabilityGraph

variable {net : Net} {config : AnalysisConfig}

theorem exploreWithin_eq_error_iff {cap : Capacity} {rounds : Nat} {e : AnalysisError} :
    exploreWithin cap rounds config net = .error e ↔
      ∃ halt, (net.problem cap config).run rounds = .error halt ∧ net.haltError halt = e := by
  unfold exploreWithin
  cases (net.problem cap config).run rounds with
  | ok x => exact ⟨nofun, nofun⟩
  | error halt => exact ⟨fun h => ⟨halt, rfl, Except.error.inj h⟩,
      fun ⟨_, hhalt, he⟩ => congrArg _ (Except.error.inj hhalt ▸ he)⟩

/-- Without a limit on the nodes, the only thing that stops the exploration of a net that has been
built is a place that would hold more than a word can count, and some firing sequence of the net, its
last step the transition that is blamed, really leaves more on that place. So a net gets its graph if no
reachable marking holds more than a word can count. -/
theorem build_fails_by_overflow (h : net.Built) (hlimit : config.stateLimit = none) :
    (∀ e, build config net = .error e → ∃ t p, t.index < net.transitionCount ∧
      p.index < net.placeCount ∧
      e = .fire (.tokenOverflow (net.transitionName t) (net.placeName p)) ∧
      ∃ ts m c, net.Reaches (ts ++ [t]) m ∧ m.count p = .finite c ∧ maxWord < c) ∧
    ((∀ m ∈ net.reachable, ∀ p c, m.count p = .finite c → c ≤ maxWord) →
      ∃ g, build config net = .ok g) := by
  have herror : ∀ e, build config net = .error e → ∃ t p, t.index < net.transitionCount ∧
      p.index < net.placeCount ∧
      e = .fire (.tokenOverflow (net.transitionName t) (net.placeName p)) ∧
      ∃ ts m c, net.Reaches (ts ++ [t]) m ∧ m.count p = .finite c ∧ maxWord < c := by
    intro e he
    obtain ⟨halt, hrun, rfl⟩ := exploreWithin_eq_error_iff.1 he
    have hkept := (net.problem .word config).kept_derivesAll
    rcases hkept.of_run_eq_error (Problem.derivesAll_start _) hrun with rfl |
      ⟨x, t, fault, hderives, hstuck, rfl⟩ | ⟨limit, hsome, -⟩
    · exact absurd hrun (Problem.run_enoughRounds_ne rfl)
    · obtain ⟨q, rfl, ht, hq, ts, m, c, hts, hc, hover⟩ := Net.exists_reaches_overflow h hderives hstuck
      exact ⟨t, q, ht, hq, rfl, ts, m, c, hts, hc, Nat.lt_of_not_le (of_decide_eq_false hover)⟩
    · exact absurd (hlimit.symm.trans hsome) nofun
  refine ⟨herror, fun hword => ?_⟩
  cases hbuild : build config net with
  | ok g => exact ⟨g, rfl⟩
  | error e =>
    obtain ⟨t, p, -, -, -, ts, m, c, hts, hc, hlt⟩ := herror e hbuild
    exact absurd (hword m ⟨_, hts⟩ p c hc) (Nat.not_le_of_lt hlt)

/-- A tank that is full to the brim, and a tap that can be opened once. -/
def brimNet : Net := .ofScript "brim" [.addPlace ⟨"shut", 1, ∅⟩, .addPlace ⟨"tank", maxWord, ∅⟩,
  .createTransition "fill", .createFlow "shut" "fill" 1, .createFlow "fill" "tank" 1]

/-- One more token is too much. -/
theorem build_fails_by_overflow_brimNet :
    build default brimNet = .error (.fire (.tokenOverflow "fill" "tank")) ∧
      ∃ t p ts m c, brimNet.Reaches (ts ++ [t]) m ∧ m.count p = .finite c ∧ maxWord < c := by
  have herror : build default brimNet = .error (.fire (.tokenOverflow "fill" "tank")) := rfl
  have hbuilt : brimNet.Built := Net.built_ofScript _ _
  have hlimit : (default : AnalysisConfig).stateLimit = none := rfl
  obtain ⟨hfails, -⟩ := build_fails_by_overflow hbuilt hlimit
  obtain ⟨t, p, -, -, -, ts, m, c, hts, hc, hlt⟩ := hfails _ herror
  exact ⟨herror, t, p, ts, m, c, hts, hc, hlt⟩

end CoverabilityGraph

end PetriNets
