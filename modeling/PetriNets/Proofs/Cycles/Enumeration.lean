import PetriNets.Proofs.Cycles.Shortest
import PetriNets.Proofs.TransitionSystem.Determinism

/-!
# The walks back to the start

From the last steps that a search has noted the walks to a state are listed by recursion: the walks to the
states before, for one step after the other, each followed by this step. The table itself does not bound this
recursion. `Backtracks` is the recursion without a bound: what it says of a state has a derivation only if the
recursion ends there. The states before are one step nearer, and only the start has the distance zero, so the
recursion ends for every state that is near enough and gives what the bounded one gives
(`Searched.backtracks_iff`).

No arc is noted twice and two arcs have different ends (`Searched.nodup_arrivals`), so the last steps of a state
are different, and with them the walks (`nodup_shortestWalks`). That these are the shortest walks through
allowed states is `Searched.mem_shortestWalks_iff`; all together holds for any states that are allowed,
connected or not (`shortestWalks_exact`).
-/

namespace PetriNets

namespace CycleSearch

/-- The recursion from a state back to the start ends, and lists these walks. -/
inductive Backtracks (s : CycleSearch) (start : String) : String → List (List WalkStep) → Prop where
  /-- At the start there is the walk without steps. -/
  | start : Backtracks s start start [[]]
  /-- At another state the recursion ends for each state before. -/
  | further {v : String} {walks : WalkStep → List (List WalkStep)} (hne : v ≠ start)
      (before : ∀ step ∈ s.predecessors v, Backtracks s start step.1 (walks step)) :
      Backtracks s start v
        ((s.predecessors v).flatMap fun step => (walks step).map fun walk => walk ++ [step])

variable {ts : TransitionSystem} {start v : String} {within : String → Bool}
  {done : List (String × Nat)} {s : CycleSearch} {steps : List WalkStep}
  {walks others : List (List WalkStep)} {k rounds rest : Nat}

/-- The recursion lists one list of walks. -/
theorem Backtracks.unique (h : s.Backtracks start v walks) (h' : s.Backtracks start v others) :
    others = walks := by
  induction h generalizing others with
  | start =>
    cases h' with
    | start => rfl
    | further hne _ => exact absurd rfl hne
  | further hne before ih =>
    cases h' with
    | start => exact absurd rfl hne
    | further _ before' =>
      apply List.flatMap_congr
      intro step hstep
      rw [ih step hstep (before' step hstep)]

/-! ## No walk is listed twice -/

theorem nodup_predecessors (h : s.arrivals.Nodup) (v : String) : (s.predecessors v).Nodup := by
  unfold predecessors
  refine List.Nodup.map_on (fun a ha b hb hsteps => ?_) (h.filter _)
  have hav : a.1 = v := by simpa using (List.mem_filter.1 ha).2
  have hbv : b.1 = v := by simpa using (List.mem_filter.1 hb).2
  exact Prod.ext (hav.trans hbv.symm) hsteps

theorem nodup_shortestWalks (h : s.arrivals.Nodup) (k : Nat) (v : String) :
    (s.shortestWalks start k v).Nodup := by
  induction k generalizing v with
  | zero =>
    unfold shortestWalks
    split
    · exact List.nodup_singleton _
    · exact List.nodup_nil
  | succ k ih =>
    unfold shortestWalks
    split
    · exact List.nodup_singleton _
    · refine List.nodup_flatMap.2 ⟨fun step _ => ?_, ?_⟩
      · exact (ih step.1).map (List.append_left_injective [step])
      · -- walks that end with different steps are different
        refine (nodup_predecessors h v).imp fun {step other} hne walk hwalk hother => hne ?_
        obtain ⟨_, -, rfl⟩ := List.mem_map.1 hwalk
        obtain ⟨_, -, heq⟩ := List.mem_map.1 hother
        exact (List.cons.inj (List.append_inj' heq rfl).2).1.symm

namespace Searched

variable (hts : ts.WellFormed) (h : Searched ts start within done s)
include hts h

/-- Each arc is followed once, as it leaves one state and each state has its turn once. -/
theorem nodup_followed : (done.flatMap fun e => ts.outgoing e.1).Nodup := by
  have hdone : done.Pairwise fun e f => e.1 ≠ f.1 := List.pairwise_map.1 h.nodup_done
  simp only [hts.outgoing_eq]
  refine List.nodup_flatMap.2 ⟨fun e _ => hts.nodup_arcs.filter _, hdone.imp ?_⟩
  intro e f hne a ha hb
  have hae : a.key.source = e.1 := by simpa using (List.mem_filter.1 ha).2
  have haf : a.key.source = f.1 := by simpa using (List.mem_filter.1 hb).2
  exact hne (hae.symm.trans haf)

theorem nodup_arrivals : s.arrivals.Nodup := by
  apply h.searching.sublist.nodup
  refine List.Nodup.map_on (fun a ha b hb hends => ?_) (h.nodup_followed hts)
  obtain ⟨htarget, hstep⟩ := Prod.mk.inj hends
  obtain ⟨hsource, hlabel⟩ := Prod.mk.inj hstep
  exact hts.eq_of_ends (mem_arcs_of_mem hts ha) (mem_arcs_of_mem hts hb) hsource hlabel htarget

/-! ## The recursion ends -/

/-- By induction on the distance, as the states before a state are one step nearer. -/
theorem backtracks_shortestWalks (hk : (v, k) ∈ s.depths) (hnear : s.Near k) :
    s.Backtracks start v (s.shortestWalks start k v) := by
  induction k generalizing v with
  | zero =>
    obtain rfl := h.eq_start_of_mem hk
    unfold shortestWalks
    rw [if_pos rfl]
    exact .start
  | succ k ih =>
    have hnear' : s.Near k := hnear.of_le (Nat.le_succ k)
    have hne := h.ne_start_of_mem hk
    unfold shortestWalks
    rw [if_neg hne]
    apply Backtracks.further hne
    intro step hstep
    obtain ⟨hdepth, -⟩ := (h.mem_arrivals_iff hts hk hnear').1 (mem_predecessors_iff.1 hstep)
    exact ih hdepth hnear'

theorem backtracks_iff (hk : (v, k) ∈ s.depths) (hnear : s.Near k) :
    s.Backtracks start v walks ↔ walks = s.shortestWalks start k v := by
  have hends := h.backtracks_shortestWalks hts hk hnear
  constructor
  · exact hends.unique
  · rintro rfl
    exact hends

/-! ## Exactly the shortest walks -/

theorem shortestWalks_ne_nil (hk : (v, k) ∈ s.depths) (hnear : s.Near k) :
    s.shortestWalks start k v ≠ [] := by
  obtain ⟨steps, hwalk⟩ := h.searching.walk v k hk
  exact List.ne_nil_of_mem ((h.mem_shortestWalks_iff hts hk hnear).2 hwalk)

theorem mem_shortestWalks_iff_shortestWithin (hk : (v, k) ∈ s.depths) (hnear : s.Near k) :
    steps ∈ s.shortestWalks start k v ↔ ts.ShortestWithin within start steps v := by
  rw [h.mem_shortestWalks_iff hts hk hnear]
  constructor
  · rintro ⟨hwalk, rfl⟩
    exact ⟨hwalk, fun others hothers => h.le_length hts hk hnear hothers⟩
  · rintro ⟨hwalk, hleast⟩
    obtain ⟨other, hother, hlength⟩ := h.searching.walk v k hk
    have hle := hleast other hother
    have hge := h.le_length hts hk hnear hwalk
    exact ⟨hwalk, by omega⟩

end Searched

/-- Whatever the search comes to in any number of rounds. -/
theorem exists_searched (hts : ts.WellFormed) (hstart : start ∈ ts.stateIds)
    (hwithin : within start = true) (hrun : run ts start within rounds (.atStart start) = some (s, rest)) :
    ∃ done, Searched ts start within done s := by
  obtain ⟨s', rest', done, hrun', -, hsearched⟩ := exists_run hts hstart (searching_atStart hwithin)
    layered_atStart (Nat.le_add_left ts.stateCount rounds)
  cases (run_add ts.stateCount hrun).symm.trans hrun'
  exact ⟨done, hsearched⟩

/-- Through whatever states a search may go, the start among them, it comes to its end. The recursion from a
state with an arc back to the start then ends as well. It lists the shortest walks through allowed states from
the start to this state, all of them and none twice, and they are as long as the distance noted. -/
theorem shortestWalks_exact (built : ts.Built) (hstart : start ∈ ts.stateIds)
    (hwithin : within start = true) :
    (∃ s rest, run ts start within ts.stateCount (.atStart start) = some (s, rest)) ∧
    ∀ rounds s rest, run ts start within rounds (.atStart start) = some (s, rest) →
      ∀ step ∈ s.closing, ∃ d walks, s.depths.lookup step.1 = some d ∧
        s.shortestWalks start d step.1 = walks ∧
        (∀ others, s.Backtracks start step.1 others ↔ others = walks) ∧
        walks.Nodup ∧ walks ≠ [] ∧
        (∀ steps, steps ∈ walks ↔ ts.ShortestWithin within start steps step.1) ∧
        ∀ steps ∈ walks, steps.length = d := by
  have hts := built.wellFormed
  constructor
  · obtain ⟨s, rest, done, hrun, -⟩ := exists_run hts hstart (searching_atStart hwithin)
      layered_atStart (Nat.le_refl ts.stateCount)
    exact ⟨s, rest, hrun⟩
  · intro rounds s rest hrun step hstep
    obtain ⟨done, h⟩ := exists_searched hts hstart hwithin hrun
    obtain ⟨d, -, hd, hnear, -⟩ := h.closing_spec hts hstep
    refine ⟨d, _, (lookup_eq_some_iff h.searching.nodup).2 hd, rfl, ?_, ?_, ?_, ?_, ?_⟩
    · intro others
      exact h.backtracks_iff hts hd hnear
    · exact nodup_shortestWalks (h.nodup_arrivals hts) d step.1
    · exact h.shortestWalks_ne_nil hts hd hnear
    · intro steps
      exact h.mem_shortestWalks_iff_shortestWithin hts hd hnear
    · intro steps hsteps
      exact ((h.mem_shortestWalks_iff hts hd hnear).1 hsteps).2

/-- Home and town, with a ferry between them, and a ford from which two ways lead on. -/
def valleyDocument : SystemDocument where
  name := "valley"
  states := [⟨"home", ∅⟩, ⟨"ferry", ∅⟩, ⟨"ford", ∅⟩, ⟨"mill", ∅⟩, ⟨"wood", ∅⟩, ⟨"town", ∅⟩]
  arcs := [⟨"home", "ferry", "board", ∅⟩, ⟨"ferry", "town", "land", ∅⟩, ⟨"home", "ford", "walk", ∅⟩,
    ⟨"ford", "mill", "left", ∅⟩, ⟨"ford", "wood", "right", ∅⟩, ⟨"mill", "town", "walk", ∅⟩,
    ⟨"wood", "town", "walk", ∅⟩, ⟨"town", "home", "return", ∅⟩]
  initial := none
  extensions := ∅

/-- Without the ferry, which is shorter, there are two shortest ways to town. -/
theorem shortestWalks_exact_valleyDocument :
    let ashore : String → Bool := fun v => v ≠ "ferry"
    let pastMill : List WalkStep := [("home", "walk"), ("ford", "left"), ("mill", "walk")]
    let pastWood : List WalkStep := [("home", "walk"), ("ford", "right"), ("wood", "walk")]
    ∃ ts s rest, valleyDocument.toSystem = .ok ts ∧ "home" ∈ ts.stateIds ∧ ashore "home" = true ∧
      run ts "home" ashore ts.stateCount (.atStart "home") = some (s, rest) ∧
      s.closing = [("town", "return")] ∧ s.Backtracks "home" "town" [pastMill, pastWood] ∧
      ∀ steps, ts.ShortestWithin ashore "home" steps "town" ↔ steps = pastMill ∨ steps = pastWood := by
  intro ashore pastMill pastWood
  have hvalley : ∃ ts s rest, valleyDocument.toSystem = .ok ts ∧
      run ts "home" ashore ts.stateCount (.atStart "home") = some (s, rest) ∧
      "home" ∈ ts.stateIds ∧ s.closing = [("town", "return")] ∧ s.depths.lookup "town" = some 3 ∧
      s.shortestWalks "home" 3 "town" = [pastMill, pastWood] :=
    ⟨_, _, _, rfl, rfl, by decide +kernel⟩
  obtain ⟨ts, s, rest, hts, hrun, hhome, hclosing, hdepth, hwalks⟩ := hvalley
  have hstep : ("town", "return") ∈ s.closing := by
    rw [hclosing]
    exact List.mem_cons_self
  obtain ⟨-, hexact⟩ :=
    shortestWalks_exact (TransitionSystem.built_of_toSystem hts) hhome (show ashore "home" = true by decide)
  obtain ⟨d, walks, hd, rfl, hends, -, -, hmem, -⟩ := hexact _ s rest hrun _ hstep
  obtain rfl := Option.some.inj (hd.symm.trans hdepth)
  rw [hwalks] at hends hmem
  refine ⟨ts, s, rest, hts, hhome, by decide, hrun, hclosing, (hends _).2 rfl, fun steps => ?_⟩
  rw [← hmem steps, List.mem_cons, List.mem_singleton]

end CycleSearch

end PetriNets
