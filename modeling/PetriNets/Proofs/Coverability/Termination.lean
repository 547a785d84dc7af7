import PetriNets.Coverability.Graph
import PetriNets.Proofs.Coverability.Branches
import PetriNets.Proofs.Coverability.Exploration
import PetriNets.Proofs.Net.Built

/-!
# The exploration ends

The nodes of an exploration have different markings, and the way to each of them is a branch that has
grown from the initial marking (`Spanning`). There are only so many such branches
(`Incidence.finite_branches`), so there are only so many nodes, whatever the capacity of the places. Each
round takes a node off the waiting ones that never waits again; so a run that is not stopped comes to an
end, after exactly as many rounds as it finds nodes (`Problem.run_eq_ite`).
-/

namespace PetriNets

namespace Exploration

variable {p : Problem} {x y z : Exploration} {id i j target : NodeId} {node : CoverNode}
  {t : TransitionId} {a : Arcs} {fired m : Marking} {trail trail' : Trail} {rounds : Nat}

/-- The markings on the way to a node, its own first. -/
def branch (m : Marking) (trail : Trail) : List Marking := m :: trail.map TreeStep.marking

/-- The nodes span a tree: no two have the same marking, and the way to each of them has grown from the
initial marking over the markings of other nodes. -/
structure Spanning (p : Problem) (x : Exploration) : Prop where
  distinct : ∀ {i j m trail trail'}, x.Found i m trail → x.Found j m trail' → i = j
  known : ∀ {i m trail}, x.Found i m trail → ∀ s ∈ trail, ∃ j trail', x.Found j s.marking trail'
  grown : ∀ {i m trail}, x.Found i m trail →
    Relation.ReflTransGen (p.incidence.Grows p.capacity) [p.initial] (branch m trail)

theorem spanning_start (p : Problem) : Spanning p (start p.initial) where
  distinct hi hj := by
    obtain ⟨rfl, -, -⟩ := found_start_iff.1 hi
    obtain ⟨rfl, -, -⟩ := found_start_iff.1 hj
    rfl
  known hi := by
    obtain ⟨-, -, rfl⟩ := found_start_iff.1 hi
    exact nofun
  grown hi := by
    obtain ⟨-, rfl, rfl⟩ := found_start_iff.1 hi
    exact .refl

theorem Spanning.follow (hx : Spanning p x) (hnode : x.nodes.get? id = some node)
    (hmem : (t, a) ∈ p.incidence.enabledArcs node.marking)
    (hfire : a.fire p.capacity node.marking = .ok fired)
    (hstep : Followed p id node x t fired target y) : Spanning p y := by
  have hfound : x.Found id node.marking node.trail := found_of_get? hnode
  have hknown : ∀ s ∈ node.trailVia id t, ∃ j trail', x.Found j s.marking trail' := by
    intro s hs
    rcases List.mem_cons.1 hs with rfl | hs
    · exact ⟨id, node.trail, hfound⟩
    · exact hx.known hfound s hs
  refine ⟨fun {i j m trail trail'} hi hj => ?_, fun {i m trail} hi => ?_, fun {i m trail} hi => ?_⟩
  · rcases hstep.found_cases_target hi with hi | ⟨hi, -, -, hnew⟩
    · rcases hstep.found_cases_target hj with hj | ⟨-, -, -, hnew⟩
      · exact hx.distinct hi hj
      · exact absurd rfl (hnew _ _ _ hi)
    · rcases hstep.found_cases_target hj with hj | ⟨hj, -⟩
      · exact absurd rfl (hnew _ _ _ hj)
      · exact hi.trans hj.symm
  · have hold : ∀ s ∈ trail, ∃ j trail', x.Found j s.marking trail' := by
      rcases hstep.found_cases_target hi with hi | ⟨-, -, rfl, -⟩
      · exact hx.known hi
      · exact hknown
    intro s hs
    obtain ⟨j, trail', hj⟩ := hold s hs
    exact ⟨j, trail', hstep.grows.found hj⟩
  · rcases hstep.found_cases_target hi with hi | ⟨-, rfl, rfl, hnew⟩
    · exact hx.grown hi
    · refine (hx.grown hfound).tail ?_
      have haccelerate : fired.accelerate (node.trailVia id t) =
          fired.accelerate (.ofMarkings (branch node.marking node.trail)) :=
        Marking.accelerate_congr (Trail.map_marking_ofMarkings _).symm
      show p.incidence.Grows p.capacity (branch node.marking node.trail)
        (fired.accelerate (node.trailVia id t) :: branch node.marking node.trail)
      rw [haccelerate] at hnew ⊢
      refine .grow ⟨a, (Incidence.mem_enabledArcs.1 hmem).1, hfire⟩ fun hold => ?_
      obtain ⟨s, hs, hmarking⟩ : ∃ s ∈ node.trailVia id t, s.marking = _ := List.mem_map.1 hold
      obtain ⟨j, trail', hj⟩ := hknown s hs
      exact hnew j _ trail' hj hmarking

theorem Spanning.setStatus (hx : Spanning p x) (hnode : x.nodes.get? id = some node)
    (status : NodeStatus) : Spanning p (x.setStatus id node status) where
  distinct hi hj := hx.distinct ((found_setStatus_iff hnode).1 hi) ((found_setStatus_iff hnode).1 hj)
  known hi s hs := by
    obtain ⟨j, trail', hj⟩ := hx.known ((found_setStatus_iff hnode).1 hi) s hs
    exact ⟨j, trail', (found_setStatus_iff hnode).2 hj⟩
  grown hi := hx.grown ((found_setStatus_iff hnode).1 hi)

theorem Spanning.pop (hx : Spanning p x) (waiting : List NodeId) : Spanning p { x with waiting } :=
  ⟨hx.distinct, hx.known, hx.grown⟩

theorem kept_spanning (p : Problem) : Kept p (Spanning p) where
  pop _ waiting hx := hx.pop waiting
  follow _ _ _ _ _ _ _ _ hnode hmem hfire hstep hx := hx.follow hnode hmem hfire hstep
  finish _ _ status _ hnode hx := hx.setStatus hnode status

theorem Spanning.run (hx : Spanning p x) (h : Exploration.run p rounds x = .ok y) : Spanning p y :=
  (kept_spanning p).run hx h

/-- There is a bound on the number of nodes. -/
theorem exists_size_le (p : Problem) : ∃ n, ∀ x, Spanning p x → x.nodes.size ≤ n := by
  have hfinite := p.incidence.finite_branches p.capacity [p.initial]
  refine ⟨hfinite.toFinset.card, fun x hx => ?_⟩
  have hnode : ∀ k : Fin x.nodes.size, ∃ n, x.nodes.get? ⟨k⟩ = some n :=
    fun k => Table.exists_get?_of_lt k.2
  choose n hn using hnode
  have hcard : (Finset.univ : Finset (Fin x.nodes.size)).card ≤ hfinite.toFinset.card := by
    refine Finset.card_le_card_of_injOn (fun k => branch (n k).marking (n k).trail) ?_ ?_
    · intro k _
      exact hfinite.mem_toFinset.2 (hx.grown (found_of_get? (hn k)))
    · intro k _ l _ hkl
      have hmarking : (n k).marking = (n l).marking := (List.cons.inj hkl).1
      have hid := hx.distinct (found_of_get? (hn k)) (hmarking ▸ found_of_get? (hn l))
      exact Fin.ext (congrArg Id.index hid)
  rwa [Finset.card_univ, Fintype.card_fin] at hcard

/-! ## Rounds -/

/-- Expanding a node lets as many nodes wait as it adds. -/
theorem size_of_expand (h : expand p x id = .ok y) :
    y.nodes.size + x.waiting.length = x.nodes.size + y.waiting.length ∧
      x.nodes.size ≤ y.nodes.size := by
  refine expand_invariant (I := fun y => y.nodes.size + x.waiting.length =
    x.nodes.size + y.waiting.length ∧ x.nodes.size ≤ y.nodes.size) ?_ ?_ ⟨rfl, Nat.le_refl _⟩ h
  · intro id node t a fired target y z _ _ _ hstep hy
    have hsize := hstep.size_eq
    have hle := hstep.size_le
    omega
  · intro id node status y _ hy
    unfold setStatus
    rwa [Table.size_set]

/-- Why a transition could not be followed. -/
theorem follow_eq_error_cases {halt : Halt} (h : follow p id node x (t, a) = .error halt) :
    (∃ fault, a.fire p.capacity node.marking = .error fault ∧ halt = .fault t fault) ∨
      ∃ limit, p.stateLimit = some limit ∧ halt = .stateLimit limit := by
  unfold follow at h
  simp only [bind_eq_error_iff, mapError_eq_error_iff] at h
  rcases h with ⟨fault, hfire, rfl⟩ | ⟨fired, -, hvisit | ⟨_, _, hnone⟩⟩
  · exact .inl ⟨fault, hfire, rfl⟩
  · unfold visit at hvisit
    split at hvisit
    · cases hvisit
    · split at hvisit
      · next limit hlimit =>
        exact .inr ⟨limit, (Option.filter_eq_some_iff.1 hlimit).1, (Except.error.inj hvisit).symm⟩
      · cases hvisit
  · cases hnone

/-- Some node enables a transition that cannot be fired there. -/
def Stuck (p : Problem) (x : Exploration) (t : TransitionId) (fault : StepFault) : Prop :=
  ∃ id node a, x.nodes.get? id = some node ∧ (t, a) ∈ p.incidence.enabledArcs node.marking ∧
    a.fire p.capacity node.marking = .error fault

/-- Why a node could not be expanded. What every move keeps has been kept up to there. -/
theorem Kept.of_expand_eq_error {I : Exploration → Prop} (hI : Kept p I) (hx : I x) {halt : Halt}
    (h : Exploration.expand p x id = .error halt) :
    (∃ y t fault, I y ∧ Stuck p y t fault ∧ halt = .fault t fault) ∨
      ∃ limit, p.stateLimit = some limit ∧ halt = .stateLimit limit := by
  cases hnode : x.nodes.get? id with
  | none =>
    rw [expand_of_get?_eq_none hnode] at h
    cases h
  | some node =>
    unfold Exploration.expand at h
    rw [hnode] at h
    dsimp only at h
    rw [bind_eq_error_iff] at h
    rcases h with hfold | ⟨z, -, hz⟩
    · have hkeeps : ∀ y step z, step ∈ p.incidence.enabledArcs node.marking →
          y.nodes.get? id = some node ∧ I y → Exploration.follow p id node y step = .ok z →
          z.nodes.get? id = some node ∧ I z := by
        rintro y ⟨t, a⟩ z hmem ⟨hy, hIy⟩ hfollow
        obtain ⟨fired, target, hfire, hstep⟩ := followed_of_follow hfollow
        exact ⟨hstep.get?_of_get? hy, hI.follow _ _ _ _ _ _ _ _ hy hmem hfire hstep hIy⟩
      obtain ⟨⟨t, a⟩, hmem, y, ⟨hy, hIy⟩, hfollow⟩ :=
        foldlM_error_invariant hkeeps ⟨hnode, hx⟩ hfold
      rcases follow_eq_error_cases hfollow with ⟨fault, hfire, hhalt⟩ | hlimit
      · exact .inl ⟨y, t, fault, hIy, ⟨id, node, a, hy, hmem, hfire⟩, hhalt⟩
      · exact .inr hlimit
    · cases hz

/-- What stops a run from within. -/
theorem Kept.of_run_eq_error {I : Exploration → Prop} (hI : Kept p I) (hx : I x) {halt : Halt}
    (h : Exploration.run p rounds x = .error halt) : halt = .cancelled ∨
    (∃ y t fault, I y ∧ Stuck p y t fault ∧ halt = .fault t fault) ∨
      ∃ limit, p.stateLimit = some limit ∧ halt = .stateLimit limit := by
  induction rounds generalizing x with
  | zero => exact .inl (Except.error.inj h).symm
  | succ rounds ih =>
    unfold Exploration.run at h
    split at h
    · cases h
    · next id waiting _ =>
      rcases bind_eq_error_iff.1 h with hexpand | ⟨z, hexpand, hrun⟩
      · exact .inr (hI.of_expand_eq_error (hI.pop x waiting hx) hexpand)
      · exact ih (hI.expand (hI.pop x waiting hx) hexpand) hrun

theorem run_eq_error_cases {halt : Halt} (h : run p rounds x = .error halt) : halt = .cancelled ∨
    (∃ t a m fault, p.incidence.arcs.get? t = some a ∧ a.isEnabled m = true ∧
      a.fire p.capacity m = .error fault ∧ halt = .fault t fault) ∨
      ∃ limit, p.stateLimit = some limit ∧ halt = .stateLimit limit := by
  have hkept : Kept p fun _ => True := ⟨fun _ _ => id, fun _ _ _ _ _ _ _ _ _ _ _ _ => id,
    fun _ _ _ _ _ => id⟩
  rcases hkept.of_run_eq_error trivial h with hcancelled |
    ⟨_, t, fault, -, ⟨_, node, a, -, hmem, hfire⟩, hhalt⟩ | hlimit
  · exact .inl hcancelled
  · obtain ⟨ha, henabled⟩ := Incidence.mem_enabledArcs.1 hmem
    exact .inr (.inl ⟨t, a, node.marking, fault, ha, henabled, hfire, hhalt⟩)
  · exact .inr (.inr hlimit)

theorem run_of_waiting_eq_nil (h : x.waiting = []) (rounds : Nat) : run p (rounds + 1) x = .ok x := by
  unfold run
  rw [h]

theorem run_of_waiting_eq_cons {waiting : List NodeId} (h : x.waiting = id :: waiting)
    (rounds : Nat) : run p (rounds + 1) x =
      Exploration.expand p { x with waiting } id >>= run p rounds := by
  conv_lhs => unfold run
  rw [h]

/-- Where what every move keeps bounds the number of nodes, a run that is not stopped comes to an end.
What bounds the rounds still to come is how many nodes there can be that have not been taken off the
waiting ones. -/
theorem Kept.exists_run_eq {I : Exploration → Prop} (hI : Kept p I) {n d : Nat}
    (hn : ∀ x, I x → x.nodes.size ≤ n) (hx : I x) (hd : x.nodes.size + d = n + x.waiting.length) :
    ∃ result, result ≠ .error .cancelled ∧
      ∀ rounds, d ≤ rounds → Exploration.run p (rounds + 1) x = result := by
  induction d generalizing x with
  | zero =>
    have hsize := hn x hx
    have hwaiting : x.waiting = [] := List.length_eq_zero_iff.1 (by omega)
    exact ⟨.ok x, nofun, fun rounds _ => run_of_waiting_eq_nil hwaiting rounds⟩
  | succ d ih =>
    cases hwaiting : x.waiting with
    | nil => exact ⟨.ok x, nofun, fun rounds _ => run_of_waiting_eq_nil hwaiting rounds⟩
    | cons id waiting =>
      have hpop := hI.pop x waiting hx
      cases hexpand : Exploration.expand p { x with waiting } id with
      | error halt =>
        refine ⟨.error halt, ?_, fun rounds _ => ?_⟩
        · rintro ⟨⟩
          rcases hI.of_expand_eq_error hpop hexpand with ⟨_, _, _, -, -, h⟩ | ⟨_, -, h⟩ <;> cases h
        · rw [run_of_waiting_eq_cons hwaiting, hexpand]
          rfl
      | ok y =>
        obtain ⟨hsize, -⟩ := size_of_expand hexpand
        rw [hwaiting, List.length_cons] at hd
        dsimp only at hsize
        obtain ⟨result, hresult, hrounds⟩ := ih (hI.expand hpop hexpand) (by omega)
        refine ⟨result, hresult, fun rounds hle => ?_⟩
        obtain ⟨rounds, rfl⟩ := Nat.exists_eq_succ_of_ne_zero (show rounds ≠ 0 by omega)
        rw [run_of_waiting_eq_cons hwaiting, hexpand]
        exact hrounds rounds (Nat.le_of_succ_le_succ hle)

/-- A run that comes to an end takes one round for each node that waits or is found, and one more to
see that none waits. -/
theorem run_eq_ite (h : run p rounds x = .ok y) (more : Nat) : x.nodes.size ≤ y.nodes.size ∧
    run p more x =
      if more + x.nodes.size ≤ y.nodes.size + x.waiting.length then .error .cancelled else .ok y := by
  induction rounds generalizing x more with
  | zero => cases h
  | succ rounds ih =>
    unfold run at h
    split at h
    · next hwaiting =>
      obtain rfl := Except.ok.inj h
      refine ⟨Nat.le_refl _, ?_⟩
      rw [hwaiting, List.length_nil]
      cases more with
      | zero =>
        rw [if_pos (by omega)]
        rfl
      | succ more => rw [if_neg (by omega), run_of_waiting_eq_nil hwaiting]
    · next id waiting hwaiting =>
      obtain ⟨z, hexpand, hrun⟩ := bind_eq_ok_iff.1 h
      obtain ⟨hsize, hle⟩ := size_of_expand hexpand
      dsimp only at hsize hle
      refine ⟨hle.trans (ih hrun 0).1, ?_⟩
      rw [hwaiting, List.length_cons]
      cases more with
      | zero =>
        have hgrown := (ih hrun 0).1
        rw [if_pos (by omega)]
        rfl
      | succ more =>
        rw [run_of_waiting_eq_cons hwaiting, hexpand]
        show run p more z = _
        rw [(ih hrun more).2]
        by_cases hmore : more + z.nodes.size ≤ y.nodes.size + z.waiting.length
        · rw [if_pos hmore, if_pos (by omega)]
        · rw [if_neg hmore, if_neg (by omega)]

end Exploration

namespace Problem

variable {p : Problem} {x : Exploration} {rounds : Nat}

theorem exists_run_eq (p : Problem) :
    ∃ bound result, result ≠ .error .cancelled ∧ ∀ rounds, bound < rounds → p.run rounds = result := by
  obtain ⟨n, hn⟩ := Exploration.exists_size_le p
  obtain ⟨result, hresult, hrun⟩ :=
    (Exploration.kept_spanning p).exists_run_eq hn (Exploration.spanning_start p) (Nat.add_comm 1 n)
  refine ⟨n, result, hresult, fun rounds hrounds => ?_⟩
  obtain ⟨rounds, rfl⟩ := Nat.exists_eq_succ_of_ne_zero (show rounds ≠ 0 by omega)
  exact hrun rounds (Nat.le_of_lt_succ hrounds)

theorem run_eq_ite (h : p.run rounds = .ok x) (more : Nat) :
    p.run more = if more ≤ x.nodes.size then .error .cancelled else .ok x := by
  have hrun := (Exploration.run_eq_ite h more).2
  have hstart : (Exploration.start p.initial).nodes.size = 1 := rfl
  have hwaiting : (Exploration.start p.initial).waiting.length = 1 := rfl
  unfold run
  rw [hrun, hstart, hwaiting]
  simp only [Nat.add_le_add_iff_right]

end Problem

namespace Net

/-- The exploration of a net from any marking, where places hold any number of tokens and there may be
any number of nodes. -/
def unlimited (net : Net) (order : ExplorationOrder) (m : Marking) : Problem :=
  { net.problem none default with initial := m, order }

/-- For every net, every initial marking and both orders the exploration comes to an end by itself.
In a net that has been built nothing but the end stops it: it takes each of its nodes off the waiting
ones once, and then none waits. -/
theorem unlimited_terminates (net : Net) (order : ExplorationOrder) (m : Marking) :
    (∃ bound result, result ≠ .error .cancelled ∧
      ∀ rounds, bound < rounds → (net.unlimited order m).run rounds = result) ∧
    (net.Built → ∃ x, x.waiting = [] ∧ ∀ rounds, (net.unlimited order m).run rounds =
      if rounds ≤ x.nodes.size then .error .cancelled else .ok x) := by
  obtain ⟨bound, result, hresult, hrun⟩ := (net.unlimited order m).exists_run_eq
  refine ⟨⟨bound, result, hresult, hrun⟩, fun hbuilt => ?_⟩
  have hend := hrun (bound + 1) (Nat.lt_succ_self bound)
  cases result with
  | error halt =>
    rcases Exploration.run_eq_error_cases hend with rfl | ⟨t, a, m', fault, ha, henabled, hfire, -⟩ |
      ⟨limit, hlimit, -⟩
    · exact absurd rfl hresult
    · obtain ⟨m'', hfire'⟩ := hbuilt.exists_fire ha henabled
      rw [show (net.unlimited order m).capacity = none from rfl, hfire'] at hfire
      cases hfire
    · cases hlimit
  | ok x => exact ⟨x, Exploration.waiting_of_run hend, Problem.run_eq_ite hend⟩

end Net

end PetriNets
