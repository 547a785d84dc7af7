import PetriNets.CommandLine.Report
import PetriNets.Proofs.Coverability.Replay

/-!
# Reported dead markings

For each dead marking the command prints the way to its node. Where the marking has no `ω`, its line can be
taken at its word: the transitions that it names can be fired one after the other, and they lead to this
marking. Otherwise the way may have been accelerated, and the line names each transition only once where a
run has to repeat some of them. Such a line still stands for dead markings that can be reached, but its
transitions may stop short of them, at one of the places that hold `ω`.
-/

namespace PetriNets.CommandLine

open CoverabilityGraph (tapNet brewNet)

/-- What a reported dead marking can be relied on for. -/
structure DeadMarking.Replayed (net : Net) (d : DeadMarking) : Prop where
  /-- The transitions that are named lead to a dead marking that holds what is said of the places without
  `ω`, or one of them is refused at a place that holds `ω`. -/
  fired : (∃ m, net.fireSequence net.initialMarking (net.named d.sequence) = .ok m ∧
      net.DeadAs d.marking m) ∨
    ∃ i t fault, d.sequence[i]? = some t ∧
      net.fireSequence net.initialMarking (net.named d.sequence) =
        .error (.inSequence i (net.faultError t fault)) ∧
      d.marking.count fault.place = .omega
  /-- Without `ω` they lead to the marking that is reported. -/
  exact : d.marking.hasOmega = false →
    net.fireSequence net.initialMarking (net.named d.sequence) = .ok d.marking ∧
      net.enabledTransitions d.marking = []
  /-- Some sequence leads to a dead marking that holds what is said of the places without `ω`. -/
  reachable : ∃ m ∈ net.reachable, net.DeadAs d.marking m

variable {net : Net} {config : AnalysisConfig} {options : Options} {g : CoverabilityGraph}
  {r : Report} {d : DeadMarking}

theorem replayed_of_mem_deadMarkings (h : net.WellFormed)
    (hg : CoverabilityGraph.build config net = .ok g) (hd : d ∈ deadMarkings g) :
    d.Replayed net := by
  obtain ⟨i, n, hn, hempty, rfl⟩ := CoverabilityGraph.mem_filterMap_deadlocks.1 hd
  have hdead : net.enabledTransitions n.marking = [] :=
    (CoverabilityGraph.enabled_of_get? hg hn).symm.trans hempty
  have hway := CoverabilityGraph.replays_firingSequence h hg hn
  refine ⟨?fired, fun homega => ?exact, CoverabilityGraph.exists_dead_of_get? hg hn hempty⟩
  case fired => exact hway.imp_left fun ⟨m, hm, happrox⟩ =>
    ⟨m, hm, Net.deadAs_of_approximates happrox hdead⟩
  case exact =>
    rcases hway with ⟨m, hm, happrox⟩ | ⟨_, _, fault, -, -, hfault⟩
    · obtain rfl := happrox.eq_of_hasOmega_eq_false homega
      exact ⟨hm, hdead⟩
    · exact absurd (Marking.hasOmega_iff.2 ⟨_, hfault⟩) (Bool.eq_false_iff.1 homega)

/-- A report on dead markings has a line for each node that enables nothing. Fired by the names on the line,
the way to the node leads to a dead marking as the line describes it, unless it stops at a place that the
line says holds `ω`; a line without `ω` is exact, and one with `ω` stands for dead markings that other
sequences lead to. -/
theorem report_deadlocks_replayed (h : net.Built) (hasked : options.analysis = .deadlocks)
    (hr : report options config net = .ok r) : ∃ g, CoverabilityGraph.build config net = .ok g ∧
      r.lines = (if deadMarkings g = [] then ["no dead markings"]
        else (deadMarkings g).map (DeadMarking.line net)) ∧
      ∀ d ∈ deadMarkings g, d.Replayed net := by
  unfold report at hr
  rw [hasked] at hr
  obtain ⟨g, hg, hreport⟩ := bind_eq_ok_iff.1 hr
  obtain rfl := Except.ok.inj hreport
  refine ⟨g, hg, ?_, fun d hd => replayed_of_mem_deadMarkings h.wellFormed hg hd⟩
  unfold deadlockReport
  cases deadMarkings g <;> rfl

/-- Either drink of the machine is reported with its run. The tank is reported with `ω`, and some run
leads to a marking of this kind. -/
theorem report_deadlocks_replayed_brewNet : ∃ options r r',
    Options.ofWords ["-a", "deadlocks", "net.json"] = .ok options ∧
    report options default brewNet = .ok r ∧ report options default tapNet = .ok r' ∧
    r.lines = ["dead marking \x7bp#0: 0, p#1: 1, p#2: 0\x7d after [steep]",
      "dead marking \x7bp#0: 0, p#1: 0, p#2: 1\x7d after [grind]"] ∧
    brewNet.fireSequence brewNet.initialMarking [.name "grind"] = .ok (.ofCounts [0, 0, 1]) ∧
    ∃ m ∈ tapNet.reachable, tapNet.DeadAs ⟨[.finite 0, .omega, .finite 1]⟩ m := by
  have hreports : ∃ options r r', Options.ofWords ["-a", "deadlocks", "net.json"] = .ok options ∧
      options.analysis = .deadlocks ∧ report options default brewNet = .ok r ∧
      report options default tapNet = .ok r' ∧
      r.lines = ["dead marking \x7bp#0: 0, p#1: 1, p#2: 0\x7d after [steep]",
        "dead marking \x7bp#0: 0, p#1: 0, p#2: 1\x7d after [grind]"] :=
    ⟨_, _, _, rfl, rfl, rfl, rfl, by decide +kernel⟩
  obtain ⟨options, r, r', hoptions, hasked, hr, hr', hlines⟩ := hreports
  obtain ⟨g, hg, -, hbrew⟩ := report_deadlocks_replayed (Net.built_ofScript _ _) hasked hr
  obtain ⟨g', hg', -, htap⟩ := report_deadlocks_replayed (Net.built_ofScript _ _) hasked hr'
  have hdrink : ∀ g, CoverabilityGraph.build default brewNet = .ok g →
      ⟨.ofCounts [0, 0, 1], [⟨1⟩]⟩ ∈ deadMarkings g := by
    rintro _ ⟨⟩
    decide
  have htank : ∀ g, CoverabilityGraph.build default tapNet = .ok g →
      ⟨⟨[.finite 0, .omega, .finite 1]⟩, [⟨0⟩, ⟨1⟩]⟩ ∈ deadMarkings g := by
    rintro _ ⟨⟩
    decide
  obtain ⟨hgrind, -⟩ := (hbrew _ (hdrink g hg)).exact rfl
  exact ⟨options, r, r', hoptions, hr, hr', hlines, hgrind, (htap _ (htank g' hg')).reachable⟩

/-- The transitions on the line of the tank cannot be fired: it holds one token when `drain` needs three. -/
theorem drain_tapNet_refused : ∃ options r,
    Options.ofWords ["-a", "deadlocks", "net.json"] = .ok options ∧
    report options default tapNet = .ok r ∧
    r.lines = ["dead marking \x7bp#0: 0, p#1: ω, p#2: 1\x7d after [fill, drain]"] ∧
    tapNet.fireSequence tapNet.initialMarking [.name "fill", .name "drain"] =
      .error (.inSequence 1 (.notEnabled "drain" "tank" 3 (.finite 1))) :=
  ⟨_, _, rfl, rfl, by decide +kernel, by decide⟩

end PetriNets.CommandLine
