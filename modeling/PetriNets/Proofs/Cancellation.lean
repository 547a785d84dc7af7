import Mathlib.Algebra.Ring.Nat
import PetriNets.Proofs.Coverability.Limit
import PetriNets.Proofs.Cycles.Smallest

/-!
# Cancellation is transparent

An analysis asks from time to time whether it may go on, and is told so as often as its budget allows.
Left alone, it asks a certain number of times: an exploration before each node and once more at the end
(`Exploration.Asks`), a search for cycles before each state from which it starts and before each state
that it takes off a queue (`CycleSearch.Takes`). With a budget of so many it comes to what it comes to
when left alone, and with a smaller one it comes to nothing but that it was cancelled
(`cancellation_transparent`).
-/

namespace PetriNets

/-- Where a budget is either too small or makes no difference, one that was large enough stays so. -/
theorem eq_of_budget_le {α : Type} {f : Nat → α} {cancelled result : α} {k n m : Nat}
    (hf : ∀ n, f n = if n < k then cancelled else result) (hle : n ≤ m) (hn : f n ≠ cancelled) :
    f m = f n := by
  have henough : ¬ n < k := fun hlt => hn ((hf n).trans (if_pos hlt))
  rw [hf n, hf m, if_neg henough, if_neg (by omega)]

/-! ## Explorations -/

namespace Exploration

variable {p : Problem} {x y : Exploration} {k rounds : Nat} {result : Except Halt Exploration}

/-- Left alone, the exploration asks so many times, and this is what it comes to. -/
inductive Asks (p : Problem) : Exploration → Nat → Except Halt Exploration → Prop where
  /-- No node waits any more. -/
  | finished {x : Exploration} (hwaiting : x.waiting = []) : Asks p x 1 (.ok x)
  /-- The next node cannot be expanded. -/
  | stopped {x : Exploration} {id : NodeId} {waiting : List NodeId} {halt : Halt}
      (hwaiting : x.waiting = id :: waiting)
      (hexpand : Exploration.expand p { x with waiting } id = .error halt) : Asks p x 1 (.error halt)
  /-- The next node is expanded. -/
  | further {x y : Exploration} {id : NodeId} {waiting : List NodeId} {k : Nat}
      {result : Except Halt Exploration} (hwaiting : x.waiting = id :: waiting)
      (hexpand : Exploration.expand p { x with waiting } id = .ok y) (rest : Asks p y k result) :
      Asks p x (k + 1) result

theorem Asks.run_eq (h : Asks p x k result) (n : Nat) :
    run p n x = if n < k then .error .cancelled else result := by
  induction h generalizing n with
  | finished hwaiting =>
    cases n with
    | zero => rfl
    | succ n => rw [run_of_waiting_eq_nil hwaiting, if_neg (by omega)]
  | stopped hwaiting hexpand =>
    cases n with
    | zero => rfl
    | succ n =>
      rw [run_of_waiting_eq_cons hwaiting, hexpand, if_neg (by omega)]
      rfl
  | further hwaiting hexpand _ ih =>
    cases n with
    | zero => rw [if_pos (Nat.succ_pos _)]; rfl
    | succ n =>
      rw [run_of_waiting_eq_cons hwaiting, hexpand]
      refine (ih n).trans ?_
      simp only [Nat.succ_lt_succ_iff]

/-- What comes to anything within some budget comes to it after asking some number of times. -/
theorem exists_asks (h : run p rounds x = result) (hresult : result ≠ .error .cancelled) :
    ∃ k, Asks p x k result := by
  induction rounds generalizing x with
  | zero => exact absurd h.symm hresult
  | succ rounds ih =>
    cases hwaiting : x.waiting with
    | nil =>
      rw [run_of_waiting_eq_nil hwaiting] at h
      exact ⟨1, h ▸ .finished hwaiting⟩
    | cons id waiting =>
      rw [run_of_waiting_eq_cons hwaiting] at h
      cases hexpand : Exploration.expand p { x with waiting } id with
      | error halt =>
        rw [hexpand] at h
        exact ⟨1, h ▸ .stopped hwaiting hexpand⟩
      | ok y =>
        rw [hexpand] at h
        obtain ⟨k, hk⟩ := ih h
        exact ⟨k + 1, .further hwaiting hexpand hk⟩

end Exploration

namespace CoverabilityGraph

variable {net : Net} {config : AnalysisConfig} {k n : Nat} {result : Except Halt Exploration}

/-- The exploration of the net, left alone. -/
def Asks (net : Net) (config : AnalysisConfig) (k : Nat) (result : Except Halt Exploration) : Prop :=
  Exploration.Asks (net.problem .word config) (.start net.initialMarking) k result

theorem build_ne_cancelled (net : Net) (config : AnalysisConfig) :
    build config net ≠ .error .cancelled := by
  intro h
  obtain ⟨halt, hrun, hhalt⟩ := exploreWithin_eq_error_iff.1 h
  cases halt with
  | cancelled => exact Problem.run_enoughRounds_ne rfl hrun
  | stateLimit | fault => cases hhalt

theorem exists_asks (net : Net) (config : AnalysisConfig) : ∃ k result, Asks net config k result := by
  obtain ⟨k, hk⟩ := Exploration.exists_asks rfl
    (Problem.run_enoughRounds_ne (p := net.problem .word config) rfl)
  exact ⟨k, _, hk⟩

theorem Asks.build_eq (h : Asks net config k result) :
    (net.problem .word config).run (Problem.enoughRounds maxWord net.initialMarking) = result := by
  have hrun := Exploration.Asks.run_eq h (Problem.enoughRounds maxWord net.initialMarking)
  have hne : (net.problem .word config).run (Problem.enoughRounds maxWord net.initialMarking) ≠
      .error .cancelled := Problem.run_enoughRounds_ne rfl
  split at hrun
  · exact absurd hrun hne
  · exact hrun

theorem Asks.buildWithin_eq (h : Asks net config k result) (n : Nat) :
    buildWithin n config net = if n < k then .error .cancelled else build config net := by
  have hrun : (net.problem .word config).run n = _ := Exploration.Asks.run_eq h n
  unfold build buildWithin exploreWithin
  rw [hrun, h.build_eq]
  by_cases hfew : n < k
  · rw [if_pos hfew, if_pos hfew]
    rfl
  · rw [if_neg hfew, if_neg hfew]

/-- A graph is finished when each of its nodes has been asked for, and whether there is another one. -/
theorem Asks.eq_of_build {g : CoverabilityGraph} (h : Asks net config k result)
    (hg : build config net = .ok g) : k = g.nodeCount + 1 := by
  obtain ⟨x, hrun, rfl⟩ := exploreWithin_eq_ok_iff.1 hg
  have hnodes := Problem.run_eq_ite hrun
  obtain rfl : result = .ok x := h.build_eq.symm.trans hrun
  show k = x.nodes.size + 1
  have hasks : ∀ n, (net.problem .word config).run n = _ := Exploration.Asks.run_eq h
  have hfew := (hasks x.nodes.size).symm.trans (hnodes x.nodes.size)
  have henough := (hasks (x.nodes.size + 1)).symm.trans (hnodes (x.nodes.size + 1))
  rw [if_pos (Nat.le_refl _)] at hfew
  rw [if_neg (Nat.not_succ_le_self _)] at henough
  split at hfew
  · next hlt =>
    split at henough
    · cases henough
    · omega
  · cases hfew

end CoverabilityGraph

/-! ## Searches for cycles -/

namespace TransitionSystem

variable {ts : TransitionSystem} {components : List (List String)} {v : String} {starts : List String}
  {mode : CycleMode} {k : Nat} {ks : List Nat} {found : List Cycle} {rounds : Nat}

/-- Left alone, the search for the smallest cycles through a state takes so many states off its queue,
none where there can be no cycle. -/
inductive Takes (ts : TransitionSystem) (components : List (List String)) (v : String) : Nat → Prop where
  /-- The state is in no component, or in one without cycles. -/
  | skipped (hskipped : ∀ number, componentOf components v = some number →
      components[number]?.any ts.isCyclic = false) : Takes ts components v 0
  /-- Its component is searched. -/
  | searched {number k : Nat} {s : CycleSearch} (hnumber : componentOf components v = some number)
      (hcyclic : components[number]?.any ts.isCyclic = true)
      (htakes : CycleSearch.Takes ts v (fun id => componentOf components id = some number)
        (.atStart v) k s) : Takes ts components v k

theorem Takes.cyclesThrough_eq (h : Takes ts components v k) : ∃ cycles, ∀ n,
    ts.cyclesThrough components v n = if n < k then none else some (cycles, n - k) := by
  unfold cyclesThrough
  cases h with
  | skipped hskipped =>
    refine ⟨[], fun n => ?_⟩
    cases hnumber : componentOf components v with
    | none => rfl
    | some number =>
      dsimp only
      rw [hskipped number hnumber]
      rfl
  | @searched number k s hnumber hcyclic htakes =>
    refine ⟨(s.closedWalks v).map Cycle.ofSteps, fun n => ?_⟩
    rw [hnumber]
    dsimp only
    rw [hcyclic, if_pos rfl, htakes.run_eq]
    split <;> rfl

theorem exists_takes {result : List Cycle × Nat}
    (h : ts.cyclesThrough components v rounds = some result) : ∃ k, Takes ts components v k := by
  unfold cyclesThrough at h
  cases hnumber : componentOf components v with
  | none => exact ⟨0, .skipped fun number h => nomatch hnumber.symm.trans h⟩
  | some number =>
    rw [hnumber] at h
    dsimp only at h
    split at h
    · next hcyclic =>
      obtain ⟨⟨s, rest⟩, hrun, -⟩ := Option.bind_eq_some_iff.1 h
      obtain ⟨k, hk⟩ := CycleSearch.exists_takes hrun
      exact ⟨k, .searched hnumber hcyclic hk⟩
    · next hcyclic =>
      refine ⟨0, .skipped fun number' h' => ?_⟩
      obtain rfl := Option.some.inj (hnumber.symm.trans h')
      exact Bool.eq_false_iff.2 hcyclic

/-- One search after the other: each start is asked for, and then each state that is taken off its
queue. -/
theorem cyclesFrom_eq (h : List.Forall₂ (Takes ts components) starts ks) (found : List Cycle) :
    ∃ cycles, ∀ n, ts.cyclesFrom components starts n found =
      if n < starts.length + ks.sum then none else some cycles := by
  induction h generalizing found with
  | nil => exact ⟨found, fun n => rfl⟩
  | @cons v k starts ks hv _ ih =>
    obtain ⟨cycles, hthrough⟩ := hv.cyclesThrough_eq
    obtain ⟨all, hall⟩ := ih (cycles.foldl (fun found c => insertOrdered Cycle.compare c found) found)
    refine ⟨all, fun n => ?_⟩
    rw [List.length_cons, List.sum_cons]
    cases n with
    | zero => rw [if_pos (by omega)]; rfl
    | succ n =>
      unfold cyclesFrom
      rw [hthrough n]
      by_cases hfew : n < k
      · rw [if_pos hfew, if_pos (by omega)]
        rfl
      · rw [if_neg hfew]
        refine (hall (n - k)).trans ?_
        by_cases hrest : n - k < starts.length + ks.sum
        · rw [if_pos hrest, if_pos (by omega)]
        · rw [if_neg hrest, if_neg (by omega)]

/-- The states from which cycles are sought: none where it is to be the initial state and there is no
such state. -/
def selectedStarts (ts : TransitionSystem) (mode : CycleMode) : List String :=
  (ts.cycleStarts mode).toOption.getD []

/-- The number of times that the search for the smallest cycles asks: for each state from which it
starts, and for each that it takes off a queue. -/
def Asks (ts : TransitionSystem) (components : List (List String)) (mode : CycleMode) (k : Nat) :
    Prop :=
  ∃ ks, List.Forall₂ (Takes ts components) (ts.selectedStarts mode) ks ∧
    k = (ts.selectedStarts mode).length + ks.sum

theorem Asks.exists_result (h : Asks ts components mode k) :
    ∃ result, result ≠ .error .cancelled ∧ ∀ n, smallestCyclesBy components n ts mode =
      if n < k then .error .cancelled else result := by
  obtain ⟨ks, hks, rfl⟩ := h
  unfold smallestCyclesBy
  cases hstarts : ts.cycleStarts mode with
  | error e =>
    have hnone : ts.selectedStarts mode = [] := by
      unfold selectedStarts
      rw [hstarts]
      rfl
    rw [hnone] at hks ⊢
    cases hks
    refine ⟨.error e, ?_, fun n => rfl⟩
    rintro ⟨⟩
    cases mode with
    | allStates => cases hstarts
    | initialState =>
      unfold cycleStarts at hstarts
      dsimp only at hstarts
      split at hstarts <;> cases hstarts
  | ok starts =>
    have hsome : ts.selectedStarts mode = starts := by
      unfold selectedStarts
      rw [hstarts]
      rfl
    rw [hsome] at hks ⊢
    obtain ⟨cycles, hall⟩ := cyclesFrom_eq hks []
    refine ⟨.ok ⟨cycles, none⟩, nofun, fun n => ?_⟩
    simp only [bind, Except.bind]
    rw [hall n]
    by_cases hfew : n < starts.length + ks.sum
    · rw [if_pos hfew, if_pos hfew]
    · rw [if_neg hfew, if_neg hfew]

theorem exists_forall₂_takes (hts : ts.WellFormed) (hcomponents : ts.ListsComponents components)
    (hstarts : starts ⊆ ts.stateIds) : ∃ ks, List.Forall₂ (Takes ts components) starts ks := by
  induction starts with
  | nil => exact ⟨[], .nil⟩
  | cons v starts ih =>
    obtain ⟨hv, hrest⟩ := List.cons_subset.1 hstarts
    obtain ⟨cycles, rest, hthrough, -⟩ := exists_cyclesThrough hts hcomponents hv (Nat.le_refl _)
    obtain ⟨k, hk⟩ := exists_takes hthrough
    obtain ⟨ks, hks⟩ := ih hrest
    exact ⟨k :: ks, .cons hk hks⟩

theorem exists_asks (hts : ts.WellFormed) (hcomponents : ts.ListsComponents components)
    (mode : CycleMode) : ∃ k, Asks ts components mode k := by
  have hstarts : ts.selectedStarts mode ⊆ ts.stateIds := by
    unfold selectedStarts
    rcases @WellFormed.cycleStarts_spec ts mode hts with ⟨-, -, herror⟩ | ⟨-, starts, hok, -, hsub, -⟩
    · rw [herror]
      exact List.nil_subset _
    · rw [hok]
      exact hsub
  obtain ⟨ks, hks⟩ := exists_forall₂_takes hts hcomponents hstarts
  exact ⟨_, ks, hks, rfl⟩

theorem WellFormed.smallestCycles_ne_cancelled (hts : ts.WellFormed) (mode : CycleMode) :
    ts.smallestCycles mode ≠ .error .cancelled := by
  intro h
  rcases hts.smallestCyclesBy_spec hts.listsComponents (Nat.le_refl _) mode with
    ⟨-, -, herror⟩ | ⟨-, cycles, hok, -⟩
  · cases herror.symm.trans h
  · cases hok.symm.trans h

theorem Asks.smallestCyclesBy_eq (h : Asks ts components mode k) (hts : ts.WellFormed)
    (hcomponents : ts.ListsComponents components) (n : Nat) : smallestCyclesBy components n ts mode =
      if n < k then .error .cancelled else ts.smallestCycles mode := by
  obtain ⟨result, hresult, hall⟩ := h.exists_result
  let enough := ts.stateCount * (ts.stateCount + 1)
  have hsame : SameSets ts ts := ⟨fun _ => .rfl, fun _ _ _ => .rfl, rfl⟩
  have halone : smallestCyclesBy components enough ts mode = ts.smallestCycles mode :=
    hsame.smallestCyclesBy_eq hts hts hcomponents hts.listsComponents (Nat.le_refl _) (Nat.le_refl _) mode
  have henough := hall enough
  rw [halone] at henough
  split at henough
  · exact absurd henough (hts.smallestCycles_ne_cancelled mode)
  · rw [henough]
    exact hall n

end TransitionSystem

/-! ## Both analyses -/

open CoverabilityGraph TransitionSystem in
/-- For every net, every transition system and every budget: the analysis comes to what it comes to
when left alone, or it is cancelled, and this if and only if it asks more often, when left alone, than
the budget allows. An exploration that finishes asks once more than there are nodes; a search for
smallest cycles asks for each state from which it starts and for each that it takes off a queue, in
whatever order the components are listed. So a larger budget never changes an answer. -/
theorem cancellation_transparent :
    (∀ (net : Net) (config : AnalysisConfig), build config net ≠ .error .cancelled ∧
      (∃ k result, CoverabilityGraph.Asks net config k result) ∧
      (∀ k result, CoverabilityGraph.Asks net config k result →
        (∀ n, buildWithin n config net = if n < k then .error .cancelled else build config net) ∧
        ∀ g, build config net = .ok g → k = g.nodeCount + 1) ∧
      ∀ n m, n ≤ m → buildWithin n config net ≠ .error .cancelled →
        buildWithin m config net = buildWithin n config net) ∧
    ∀ (ts : TransitionSystem) (components : List (List String)) (mode : CycleMode), ts.Built →
      ts.ListsComponents components → ts.smallestCycles mode ≠ .error .cancelled ∧
      (∃ k, TransitionSystem.Asks ts components mode k) ∧
      (∀ k, TransitionSystem.Asks ts components mode k → ∀ n, smallestCyclesBy components n ts mode =
        if n < k then .error .cancelled else ts.smallestCycles mode) ∧
      ∀ n m, n ≤ m → smallestCyclesBy components n ts mode ≠ .error .cancelled →
        smallestCyclesBy components m ts mode = smallestCyclesBy components n ts mode := by
  constructor
  · intro net config
    obtain ⟨k, result, hasks⟩ := CoverabilityGraph.exists_asks net config
    refine ⟨build_ne_cancelled net config, ⟨k, result, hasks⟩,
      fun k result h => ⟨h.buildWithin_eq, fun g => h.eq_of_build⟩, fun n m hle hn => ?_⟩
    exact eq_of_budget_le hasks.buildWithin_eq hle hn
  · intro ts components mode hbuilt hcomponents
    have hts := hbuilt.wellFormed
    obtain ⟨k, hasks⟩ := TransitionSystem.exists_asks hts hcomponents mode
    refine ⟨hts.smallestCycles_ne_cancelled mode, ⟨k, hasks⟩,
      fun k h => h.smallestCyclesBy_eq hts hcomponents, fun n m hle hn => ?_⟩
    exact eq_of_budget_le (hasks.smallestCyclesBy_eq hts hcomponents) hle hn

open CoverabilityGraph TransitionSystem in
/-- Three nodes take four questions; one start, and two states on the way back to it, take three. -/
theorem cancellation_transparent_marbleNet :
    (∃ g, build default marbleNet = .ok g ∧ g.nodeCount = 3 ∧
      buildWithin 3 default marbleNet = .error .cancelled ∧
      buildWithin 4 default marbleNet = .ok g) ∧
    ∃ ts, waysDocument.toSystem = .ok ts ∧
      TransitionSystem.Asks ts ts.components .initialState 3 ∧
      smallestCyclesBy ts.components 2 ts .initialState = .error .cancelled ∧
      smallestCyclesBy ts.components 3 ts .initialState = ts.smallestCycles .initialState := by
  constructor
  · have hbuild : ∃ g, build default marbleNet = .ok g ∧ g.nodeCount = 3 := ⟨_, rfl, rfl⟩
    obtain ⟨g, hg, hcount⟩ := hbuild
    obtain ⟨-, ⟨k, result, hasks⟩, hall, -⟩ := cancellation_transparent.1 marbleNet default
    obtain ⟨hbudget, hnodes⟩ := hall k result hasks
    obtain rfl : k = 4 := by rw [hnodes g hg, hcount]
    exact ⟨g, hg, hcount, hbudget 3, (hbudget 4).trans hg⟩
  · have hways : ∃ ts, waysDocument.toSystem = .ok ts ∧
        smallestCyclesBy ts.components 2 ts .initialState = .error .cancelled ∧
        smallestCyclesBy ts.components 3 ts .initialState ≠ .error .cancelled :=
      ⟨_, rfl, by decide +kernel, by decide +kernel⟩
    obtain ⟨ts, hts, htwo, hthree⟩ := hways
    have hbuilt := built_of_toSystem hts
    obtain ⟨halone, ⟨k, hasks⟩, hall, -⟩ := cancellation_transparent.2 ts ts.components .initialState
      hbuilt hbuilt.wellFormed.listsComponents
    have hbudget := hall k hasks
    have hmore : 2 < k := by
      by_contra hle
      exact halone (((hbudget 2).trans (if_neg hle)).symm.trans htwo)
    have hless : ¬ 3 < k := fun hlt => hthree ((hbudget 3).trans (if_pos hlt))
    obtain rfl : k = 3 := by omega
    exact ⟨ts, hts, hasks, htwo, (hbudget 3).trans (if_neg hless)⟩

end PetriNets
