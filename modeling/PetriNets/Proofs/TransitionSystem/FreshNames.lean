import Mathlib.Order.Bounds.Basic
import PetriNets.Proofs.TransitionSystem.InitialState

/-!
# Fresh names

A system that is to name a state itself tries one number after the other until the name of one is not in
use. `Tries` is this search without a bound on its length. It comes to an end, at the number that the bounded
search gives (`exists_tries_firstFree`), after one candidate more than there are states at most
(`exists_tries_nextFresh`), and this number is the least one that is free (`Tries.isLeast`).

The next search begins behind it, and no other call changes where (`fresh_of_onSystem`). So along a script
the numbers handed out ascend (`givenNames_runScript`), and no name is handed out twice even if its state is
taken out. Numbers that the search has left behind have all been in use, so it begins at a number that is no
larger than the number of calls (`fresh_ofScript_le`), which a machine word holds.
-/

namespace PetriNets

variable {n k m fuel : Nat}

/-- The search for a number that is not in use: it begins with a number, tries so many, and ends with the
last one of these. -/
inductive Tries (used : Nat → Prop) : Nat → Nat → Nat → Prop where
  | found {n : Nat} (free : ¬ used n) : Tries used n 1 n
  | next {n k m : Nat} (taken : used n) (rest : Tries used (n + 1) k m) : Tries used n (k + 1) m

theorem Tries.isLeast {used : Nat → Prop} (h : Tries used n k m) :
    n + k = m + 1 ∧ IsLeast {i | n ≤ i ∧ ¬ used i} m := by
  induction h with
  | found free => exact ⟨rfl, ⟨Nat.le_refl _, free⟩, fun i hi => hi.1⟩
  | @next n k m taken rest ih =>
    obtain ⟨hcount, ⟨hle, hfree⟩, hleast⟩ := ih
    refine ⟨by omega, ⟨by omega, hfree⟩, ?_⟩
    intro i hi
    have hne : n ≠ i := by
      intro heq
      exact hi.2 (heq ▸ taken)
    have hlt : n + 1 ≤ i := by
      have hle := hi.1
      omega
    exact hleast ⟨hlt, hi.2⟩

/-- Where the bounded search ends at a free number, so does the one without a bound. -/
theorem exists_tries_firstFree {used : Nat → Bool} (h : used (firstFree used fuel n) = false) :
    ∃ k ≤ fuel + 1, Tries (fun i => used i = true) n k (firstFree used fuel n) := by
  induction fuel generalizing n with
  | zero => exact ⟨1, Nat.le_refl 1, .found (by simpa [firstFree] using h)⟩
  | succ fuel ih =>
    unfold firstFree at h ⊢
    by_cases hn : used n = true
    · rw [if_pos hn] at h ⊢
      obtain ⟨k, hk, htries⟩ := ih h
      exact ⟨k + 1, by omega, .next hn htries⟩
    · rw [if_neg hn]
      exact ⟨1, by omega, .found hn⟩

namespace TransitionSystem

variable {ts ts' : TransitionSystem}

theorem exists_tries_nextFresh (ts : TransitionSystem) : ∃ k ≤ ts.stateCount + 1,
    Tries (fun n => stateName n ∈ ts.stateIds) ts.fresh k ts.nextFresh := by
  have hused : (fun n => ts.containsState (stateName n) = true) = fun n => stateName n ∈ ts.stateIds :=
    funext fun n => propext Graph.containsNode_iff
  have hfree : ts.containsState (stateName ts.nextFresh) = false := by
    apply Bool.eq_false_iff.2
    intro hmem
    exact ts.stateName_nextFresh_notMem (Graph.containsNode_iff.1 hmem)
  rw [← hused]
  exact exists_tries_firstFree hfree

theorem stateIds_addState {s : State} (h : ts.addState s = .ok ts') :
    ts'.stateIds = ts.stateIds ++ [s.id] ∧ ts'.fresh = ts.fresh := by
  obtain ⟨g, hg, hts⟩ := bind_eq_ok_iff.1 h
  obtain rfl := Except.ok.inj hts
  refine ⟨?_, rfl⟩
  show g.nodes.map Node.id = _
  rw [(Graph.lists_insertNode hg).1, List.map_append]
  rfl

/-- A system can always name a state itself. -/
theorem createState_none (ts : TransitionSystem) : ∃ ts', ts.createState none =
    .ok (stateName ts.nextFresh, ts') ∧ ts'.fresh = ts.nextFresh + 1 ∧
      ts'.stateIds = ts.stateIds ++ [stateName ts.nextFresh] := by
  obtain ⟨ts', hadd⟩ : ∃ ts', TransitionSystem.addState { ts with fresh := ts.nextFresh + 1 }
      ⟨stateName ts.nextFresh, (), ∅⟩ = .ok ts' :=
    ⟨_, congrArg (Functor.map _) (Graph.insertNode_eq_ok_iff.2 ⟨ts.stateName_nextFresh_notMem, rfl⟩)⟩
  obtain ⟨hids, hfresh⟩ := stateIds_addState hadd
  exact ⟨ts', congrArg (Functor.map _) hadd, hfresh, hids⟩

end TransitionSystem

namespace SystemCall

open TransitionSystem

variable {ts ts' : TransitionSystem} {c : SystemCall} {a : SystemAnswer}

/-- Whether the call leaves it to the system to name a state. -/
def isUnnamed : SystemCall → Bool
  | createState none => true
  | _ => false

/-- The name that the system has given to a state. -/
def givenName? : SystemCall × Except GraphError SystemAnswer → Option String
  | (createState none, .ok (.state s)) => some s.id
  | _ => none

theorem eq_of_isUnnamed (h : c.isUnnamed = true) : c = createState none := by
  match c, h with
  | createState none, _ => rfl

theorem givenName?_of_not (h : c.isUnnamed = false) (r : Except GraphError SystemAnswer) :
    givenName? (c, r) = none := by
  match c, h with
  | createState (some _), _ | createArc .., _ | removeState _, _ | removeArc .., _
  | setInitialState _, _ | rename _, _ | copy, _ => rfl

theorem onSystem_createState_none (ts : TransitionSystem) : ∃ s ts',
    (createState none).onSystem ts = .ok (.state s, ts') ∧ s.id = stateName ts.nextFresh ∧
      ts'.fresh = ts.nextFresh + 1 ∧ ts'.stateIds = ts.stateIds ++ [stateName ts.nextFresh] := by
  obtain ⟨ts', hcreate, hfresh, hids⟩ := createState_none ts
  refine ⟨ts'.flag ⟨stateName ts.nextFresh, (), ∅⟩, ts', ?_, rfl, hfresh, hids⟩
  show (ts.createState none).map _ = _
  rw [hcreate]
  rfl

/-- Other calls leave the number alone from which the next search begins, and the only name they add is one
that they are told. -/
theorem fresh_of_onSystem (h : ts.WellFormed) (hnamed : c.isUnnamed = false)
    (call : c.onSystem ts = .ok (a, ts')) :
    ts'.fresh = ts.fresh ∧ ∃ v, ts'.stateIds ⊆ v :: ts.stateIds := by
  have hsame : ts'.stateIds = ts.stateIds → ∃ v, ts'.stateIds ⊆ v :: ts.stateIds := by
    intro hids
    exact ⟨"", hids ▸ List.subset_cons_self _ _⟩
  cases c with
  | createState id =>
    obtain ⟨⟨name, next⟩, hcall, hpair⟩ := map_eq_ok_iff.1 call
    obtain ⟨-, rfl⟩ := Prod.mk.inj hpair
    cases id with
    | none => cases hnamed
    | some id =>
      obtain ⟨_, hadd, hts⟩ := bind_eq_ok_iff.1 hcall
      cases hts
      obtain ⟨hids, hfresh⟩ := stateIds_addState hadd
      refine ⟨hfresh, name, ?_⟩
      simp [hids]
  | createArc source target label =>
    obtain ⟨next, hcall, hpair⟩ := map_eq_ok_iff.1 call
    obtain ⟨-, rfl⟩ := Prod.mk.inj hpair
    obtain ⟨g, hg, hts⟩ := bind_eq_ok_iff.1 hcall
    cases hts
    exact ⟨rfl, hsame (congrArg (List.map Node.id) (Graph.lists_insertEdge hg).1)⟩
  | removeState id =>
    obtain ⟨⟨s, next⟩, hcall, hpair⟩ := map_eq_ok_iff.1 call
    obtain ⟨-, rfl⟩ := Prod.mk.inj hpair
    obtain ⟨⟨s, g⟩, hg, hts⟩ := bind_eq_ok_iff.1 hcall
    cases hts
    refine ⟨rfl, "", ?_⟩
    show g.nodes.map Node.id ⊆ _
    rw [(h.graph.lists_removeNode hg).2.1]
    intro v hv
    exact List.mem_cons_of_mem _ (List.map_subset _ (List.filter_subset_self _) hv)
  | removeArc source target label =>
    obtain ⟨⟨b, next⟩, hcall, hpair⟩ := map_eq_ok_iff.1 call
    obtain ⟨-, rfl⟩ := Prod.mk.inj hpair
    obtain ⟨⟨b, g⟩, hg, hts⟩ := bind_eq_ok_iff.1 hcall
    cases hts
    exact ⟨rfl, hsame (congrArg (List.map Node.id) (h.graph.lists_removeEdge hg).1)⟩
  | setInitialState id =>
    obtain ⟨next, hcall, hpair⟩ := map_eq_ok_iff.1 call
    obtain ⟨-, rfl⟩ := Prod.mk.inj hpair
    obtain ⟨-, -, rfl⟩ := h.setInitialState hcall
    exact ⟨rfl, hsame rfl⟩
  | rename name =>
    obtain ⟨-, rfl⟩ := Prod.mk.inj (Except.ok.inj call)
    exact ⟨rfl, hsame rfl⟩
  | copy =>
    obtain ⟨-, rfl⟩ := Prod.mk.inj (Except.ok.inj call)
    exact ⟨rfl, hsame (Graph.nodeIds_copied ts.graph)⟩

end SystemCall

namespace TransitionSystem

variable {ts : TransitionSystem}

/-- The names that a script has had given to states, in order. -/
def givenNames (name : String) (calls : List SystemCall) : List String :=
  (calls.zip (answers name calls)).filterMap SystemCall.givenName?

/-- The numbers of the names ascend from the one on from which the first search begins. -/
theorem givenNames_runScript (h : ts.WellFormed) (calls : List SystemCall) : ∃ ns : List Nat,
    (calls.zip (runScript SystemCall.onSystem calls ts).1).filterMap SystemCall.givenName? =
        ns.map stateName ∧
      ns.Pairwise (· < ·) ∧ (∀ n ∈ ns, ts.fresh ≤ n) ∧
      ns.length = calls.countP SystemCall.isUnnamed := by
  induction calls generalizing ts with
  | nil => exact ⟨[], rfl, .nil, nofun, rfl⟩
  | cons c calls ih =>
    have hnext : (attempt c.onSystem ts).2.WellFormed := attempt_invariant
      (fun _ _ _ _ h call => (SystemCall.initial_of_onSystem h call).1) h c
    obtain ⟨ns, hnames, hascending, hfresh, hlength⟩ := ih hnext
    rw [runScript_cons, List.zip_cons_cons, List.countP_cons]
    by_cases hc : c.isUnnamed = true
    · obtain rfl := SystemCall.eq_of_isUnnamed hc
      obtain ⟨s, ts', hcall, hs, hts', -⟩ := SystemCall.onSystem_createState_none ts
      rw [attempt_of_eq_ok hcall] at hnames hfresh ⊢
      rw [hts'] at hfresh
      obtain ⟨k, -, htries⟩ := ts.exists_tries_nextFresh
      have hle := htries.isLeast.2.1.1
      refine ⟨ts.nextFresh :: ns, ?_, List.pairwise_cons.2 ⟨fun n hn => hfresh n hn, hascending⟩,
        List.forall_mem_cons.2 ⟨hle, fun n hn => ?_⟩, ?_⟩
      · have hgiven : SystemCall.givenName? (.createState none, .ok (.state s)) = some s.id := rfl
        rw [List.filterMap_cons_some hgiven, hnames, hs, List.map_cons]
      · have hlt := hfresh n hn
        omega
      · rw [List.length_cons, hlength, if_pos hc]
    · have hnamed : c.isUnnamed = false := by simpa using hc
      rw [List.filterMap_cons_none (SystemCall.givenName?_of_not hnamed _), if_neg hc]
      refine ⟨ns, hnames, hascending, fun n hn => ?_, hlength⟩
      have hsame : (attempt c.onSystem ts).2.fresh = ts.fresh := by
        cases hcall : c.onSystem ts with
        | error e => rw [attempt_of_eq_error hcall]
        | ok r =>
          rw [attempt_of_eq_ok hcall]
          exact (SystemCall.fresh_of_onSystem h hnamed hcall).1
      exact hsame ▸ hfresh n hn

/-- Names that have all been in use: those of the states, and those of all numbers that searches have left
behind. -/
structure Spent (ts : TransitionSystem) (names : List String) : Prop where
  states : ts.stateIds ⊆ names
  passed : ∀ n < ts.fresh, stateName n ∈ names

variable {ts' : TransitionSystem} {names : List String}

theorem Spent.fresh_le (h : ts.Spent names) : ts.fresh ≤ names.length := by
  have hnodup : ((List.range ts.fresh).map stateName).Nodup := List.nodup_range.map stateName_injective
  have hsub : (List.range ts.fresh).map stateName ⊆ names := by
    intro v hv
    obtain ⟨n, hn, rfl⟩ := List.mem_map.1 hv
    exact h.passed n (List.mem_range.1 hn)
  simpa using (hnodup.subperm hsub).length_le

/-- A call spends one name at most. -/
theorem Spent.onSystem (h : ts.Spent names) (hts : ts.WellFormed) {c : SystemCall} {a : SystemAnswer}
    (call : c.onSystem ts = .ok (a, ts')) : ∃ v, ts'.Spent (v :: names) := by
  by_cases hc : c.isUnnamed = true
  · obtain rfl := SystemCall.eq_of_isUnnamed hc
    obtain ⟨s, next, hcall, -, hfresh, hids⟩ := SystemCall.onSystem_createState_none ts
    obtain ⟨-, rfl⟩ := Prod.mk.inj (Except.ok.inj (call.symm.trans hcall))
    refine ⟨stateName ts.nextFresh, ⟨?_, ?_⟩⟩
    · rw [hids]
      apply List.append_subset.2
      exact ⟨fun v hv => List.mem_cons_of_mem _ (h.states hv), by simp⟩
    · intro n hn
      rw [hfresh] at hn
      obtain ⟨k, -, htries⟩ := ts.exists_tries_nextFresh
      -- behind the number found lie those passed before, and then those in use
      by_cases hlast : n = ts.nextFresh
      · simp [hlast]
      · by_cases hpassed : n < ts.fresh
        · exact List.mem_cons_of_mem _ (h.passed n hpassed)
        · have hused : stateName n ∈ ts.stateIds := by
            by_contra hfree
            have hle := htries.isLeast.2.2 ⟨Nat.le_of_not_lt hpassed, hfree⟩
            omega
          exact List.mem_cons_of_mem _ (h.states hused)
  · obtain ⟨hfresh, v, hsub⟩ := SystemCall.fresh_of_onSystem hts (by simpa using hc) call
    refine ⟨v, ⟨?_, ?_⟩⟩
    · intro w hw
      exact List.cons_subset_cons v h.states (hsub hw)
    · intro n hn
      exact List.mem_cons_of_mem _ (h.passed n (hfresh ▸ hn))

theorem exists_spent_ofScript (name : String) (calls : List SystemCall) :
    ∃ names, names.length ≤ calls.length ∧ (ofScript name calls).Spent names := by
  induction calls using List.reverseRecOn with
  | nil => exact ⟨[], Nat.le_refl 0, ⟨List.nil_subset _, nofun⟩⟩
  | append_singleton calls c ih =>
    obtain ⟨names, hlength, hspent⟩ := ih
    have hlast : ofScript name (calls ++ [c]) = (attempt c.onSystem (ofScript name calls)).2 :=
      runScript_concat calls c
    rw [hlast, List.length_append, List.length_singleton]
    cases hcall : c.onSystem (ofScript name calls) with
    | error e =>
      rw [attempt_of_eq_error hcall]
      exact ⟨names, by omega, hspent⟩
    | ok r =>
      rw [attempt_of_eq_ok hcall]
      obtain ⟨v, hnext⟩ := hspent.onSystem (wellFormed_ofScript name calls) hcall
      exact ⟨v :: names, Nat.succ_le_succ hlength, hnext⟩

/-- The number from which the search begins is no larger than the number of calls. -/
theorem fresh_ofScript_le (name : String) (calls : List SystemCall) :
    (ofScript name calls).fresh ≤ calls.length := by
  obtain ⟨names, hlength, hspent⟩ := exists_spent_ofScript name calls
  exact Nat.le_trans hspent.fresh_le hlength

/-- However a system has come about, it can name a state itself. It finds the name by a search that comes to an
end after one candidate more than there are states at most. The number in the name is the least one from
where the search begins on that is free, and the next search begins behind it. No two of the names that the
system has given along a script are equal, whether or not their states are still there, and none of the
calls that asked for one was refused. -/
theorem ofScript_names_states (name : String) (calls : List SystemCall) :
    (∃ k n ts', Tries (fun n => stateName n ∈ (ofScript name calls).stateIds)
        (ofScript name calls).fresh k n ∧
      k ≤ (ofScript name calls).stateCount + 1 ∧
      IsLeast {n | (ofScript name calls).fresh ≤ n ∧
        stateName n ∉ (ofScript name calls).stateIds} n ∧
      (ofScript name calls).createState none = .ok (stateName n, ts') ∧
      ts'.stateIds = (ofScript name calls).stateIds ++ [stateName n] ∧ ts'.fresh = n + 1) ∧
    (givenNames name calls).Nodup ∧
    (givenNames name calls).length = calls.countP SystemCall.isUnnamed ∧
    (ofScript name calls).fresh ≤ calls.length := by
  obtain ⟨k, hk, htries⟩ := (ofScript name calls).exists_tries_nextFresh
  obtain ⟨ts', hcreate, hfresh, hids⟩ := createState_none (ofScript name calls)
  obtain ⟨ns, hnames, hascending, -, hlength⟩ := givenNames_runScript (wellFormed_empty name) calls
  have hgiven : givenNames name calls = ns.map stateName := hnames
  refine ⟨⟨k, _, ts', htries, hk, htries.isLeast.2, hcreate, hids, hfresh⟩, ?_, ?_,
    fresh_ofScript_le name calls⟩
  · rw [hgiven]
    apply List.Nodup.map stateName_injective
    exact hascending.imp Nat.ne_of_lt
  · rw [hgiven, List.length_map, hlength]

/-- Names that only look like those the system gives, or that come later, and a state that is taken out. -/
def guestScript : List SystemCall :=
  [.createState (some "s1"), .createState (some "s02"), .createState none, .createState none,
    .removeState "s0", .createState (some "s0"), .createState none]

theorem ofScript_names_states_guestScript :
    givenNames "guests" guestScript = ["s0", "s2", "s3"] ∧ (givenNames "guests" guestScript).Nodup ∧
      ∃ k ts', Tries (fun n => stateName n ∈ (ofScript "guests" guestScript).stateIds) 4 k 4 ∧
        (ofScript "guests" guestScript).createState none = .ok ("s4", ts') := by
  have hgiven : givenNames "guests" guestScript = ["s0", "s2", "s3"] := by decide +kernel
  have hfresh : (ofScript "guests" guestScript).fresh = 4 := by decide +kernel
  have hfree : stateName 4 ∉ (ofScript "guests" guestScript).stateIds := by decide +kernel
  obtain ⟨⟨k, n, ts', htries, -, hleast, hcreate, -⟩, hnodup, -⟩ :=
    ofScript_names_states "guests" guestScript
  rw [hfresh] at htries hleast
  obtain rfl : n = 4 := Nat.le_antisymm (hleast.2 ⟨Nat.le_refl 4, hfree⟩) hleast.1.1
  exact ⟨hgiven, hnodup, k, ts', htries, hcreate⟩

end TransitionSystem

end PetriNets
