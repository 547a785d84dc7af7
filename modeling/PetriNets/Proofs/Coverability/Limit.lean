import PetriNets.Proofs.Coverability.Overflow

/-!
# A limit on the nodes only truncates

An exploration that may have no more than so many nodes does what it does without the limit, up to the
first node that would be too many (`Truncated`). This is so for every part of an exploration, and parts
that are made one after the other are truncated as a whole (`Truncated.bind`). So a graph that keeps to
the limit comes out as it is, and of any other one nothing does (`build_truncated`).
-/

namespace PetriNets

variable {α β γ : Type} {limit n k : Nat} {size : α → Nat} {size' : β → Nat}

/-- What a part of an exploration comes to without the limit and with it, where there are `n` nodes
before, and `size` tells how many there are after it. The nodes there are already are never too many. -/
inductive Truncated (limit n : Nat) (size : α → Nat) : Except Halt α → Except Halt α → Prop where
  /-- There are no more nodes than there may be. -/
  | within (a : α) (grown : n ≤ size a) (room : size a ≤ max limit n) :
      Truncated limit n size (.ok a) (.ok a)
  /-- There would be too many. -/
  | beyond (a : α) (grown : n ≤ size a) (full : max limit n < size a) :
      Truncated limit n size (.ok a) (.error (.stateLimit limit))
  /-- It stops before there are too many. -/
  | failed (halt : Halt) : Truncated limit n size (.error halt) (.error halt)
  /-- It would stop later on. -/
  | earlier (halt : Halt) : Truncated limit n size (.error halt) (.error (.stateLimit limit))

namespace Truncated

variable {r r' : Except Halt α}

theorem same (a : α) (h : size a = n) : Truncated limit n size (.ok a) (.ok a) :=
  .within a h.ge (h.le.trans (Nat.le_max_right limit n))

/-- What adds no node is never truncated. -/
theorem refl (r : Except Halt α) : Truncated limit n (fun _ => n) r r := by
  cases r with
  | error halt => exact .failed halt
  | ok a => exact .same a rfl

/-- Seen from before some nodes for which there was room. -/
theorem weaken (grown : n ≤ k) (room : k ≤ max limit n) (h : Truncated limit k size r r') :
    Truncated limit n size r r' := by
  -- the new nodes do not lift the limit: either there were none, or they keep to it
  have hmax : max limit k = max limit n := by omega
  cases h with
  | within a grown' room' => exact .within a (grown.trans grown') (hmax ▸ room')
  | beyond a grown' full' => exact .beyond a (grown.trans grown') (hmax ▸ full')
  | failed halt => exact .failed halt
  | earlier halt => exact .earlier halt

/-- Seen from before some nodes for which there was no room. -/
theorem cut (grown : n ≤ k) (full : max limit n < k) (h : Truncated limit k size r r') :
    Truncated limit n size r (.error (.stateLimit limit)) := by
  cases h with
  | within a grown' _ | beyond a grown' _ =>
    exact .beyond a (grown.trans grown') (full.trans_le grown')
  | failed halt | earlier halt => exact .earlier halt

theorem bind {f f' : α → Except Halt β} (h : Truncated limit n size r r')
    (hf : ∀ a, Truncated limit (size a) size' (f a) (f' a)) :
    Truncated limit n size' (r >>= f) (r' >>= f') := by
  cases h with
  | within a grown room => exact (hf a).weaken grown room
  | beyond a grown full => exact (hf a).cut grown full
  | failed halt => exact .failed halt
  | earlier halt => exact .earlier halt

theorem foldlM {f f' : α → γ → Except Halt α}
    (hf : ∀ a c, Truncated limit (size a) size (f a c) (f' a c)) (cs : List γ) (a : α) :
    Truncated limit (size a) size (cs.foldlM f a) (cs.foldlM f' a) := by
  induction cs generalizing a with
  | nil => exact .same a rfl
  | cons c cs ih =>
    rw [List.foldlM_cons, List.foldlM_cons]
    exact (hf a c).bind ih

end Truncated

/-- The problem with a limit on the nodes. -/
def Problem.limited (p : Problem) (limit : Nat) : Problem := { p with stateLimit := some limit }

namespace Exploration

variable {p : Problem}

/-- The limit is looked at where a new node is added, and nowhere else. -/
theorem visit_truncated (hp : p.stateLimit = none) (limit : Nat) (x : Exploration) (m : Marking)
    (trail : Trail) : Truncated limit x.nodes.size (fun r => r.2.nodes.size) (visit p x m trail)
      (visit (p.limited limit) x m trail) := by
  unfold visit
  cases x.find? m with
  | some id => exact .same (id, x) rfl
  | none =>
    let grown : NodeId × Exploration := (x.nodes.nextId, { x with
      nodes := x.nodes.push ⟨m, trail, .waiting⟩
      waiting := p.order.wait x.nodes.nextId x.waiting })
    have hsize : grown.2.nodes.size = x.nodes.size + 1 := Table.size_push
    have hlimit : (p.limited limit).stateLimit = some limit := rfl
    rw [hp, hlimit, Option.filter_none, Option.filter_some]
    by_cases hfull : limit ≤ x.nodes.size
    · rw [if_pos (decide_eq_true hfull)]
      exact .beyond grown (by omega) (by omega)
    · rw [if_neg (by simpa using hfull)]
      exact .within grown (by omega) (by omega)

theorem follow_truncated (hp : p.stateLimit = none) (limit : Nat) (id : NodeId) (node : CoverNode)
    (x : Exploration) (step : TransitionId × Arcs) :
    Truncated limit x.nodes.size (fun y => y.nodes.size) (follow p id node x step)
      (follow (p.limited limit) id node x step) := by
  unfold follow
  refine (Truncated.refl _).bind fun fired => ?_
  exact (visit_truncated hp limit { x with witnesses := x.witnesses ++ _ } _ _).bind fun r => .same _ rfl

theorem expand_truncated (hp : p.stateLimit = none) (limit : Nat) (x : Exploration) (id : NodeId) :
    Truncated limit x.nodes.size (fun y => y.nodes.size) (expand p x id)
      (expand (p.limited limit) x id) := by
  unfold expand
  cases x.nodes.get? id with
  | none => exact .same x rfl
  | some node =>
    refine (Truncated.foldlM (follow_truncated hp limit id node) _ x).bind fun y => ?_
    exact .same _ Table.size_set

/-- A run of an exploration is truncated, however many rounds it may take. -/
theorem run_truncated (hp : p.stateLimit = none) (limit rounds : Nat) (x : Exploration) :
    Truncated limit x.nodes.size (fun y => y.nodes.size) (run p rounds x)
      (run (p.limited limit) rounds x) := by
  induction rounds generalizing x with
  | zero => exact .failed .cancelled
  | succ rounds ih =>
    unfold run
    cases hwaiting : x.waiting with
    | nil => exact .same x rfl
    | cons id waiting => exact (expand_truncated hp limit { x with waiting } id).bind ih

end Exploration

namespace Problem

/-- The first of the nodes is there before anything is looked for. -/
theorem run_truncated {p : Problem} (hp : p.stateLimit = none) (limit rounds : Nat) :
    Truncated limit 1 (fun x : Exploration => x.nodes.size) (p.run rounds)
      ((p.limited limit).run rounds) :=
  Exploration.run_truncated hp limit rounds (.start p.initial)

end Problem

namespace CoverabilityGraph

/-- Without a limit, all that can stop an exploration is that a firing fails. -/
theorem exists_fire_of_build_eq_error {net : Net} {config : AnalysisConfig} {e : AnalysisError}
    (h : build { config with stateLimit := none } net = .error e) : ∃ f, e = .fire f := by
  obtain ⟨halt, hrun, rfl⟩ := exploreWithin_eq_error_iff.1 h
  rcases Exploration.run_eq_error_cases hrun with rfl | ⟨t, _, _, fault, -, -, -, rfl⟩ | ⟨_, hlimit, -⟩
  · exact absurd hrun (Problem.run_enoughRounds_ne rfl)
  · exact ⟨_, rfl⟩
  · cases hlimit

/-- With a limit on the nodes, the graph that there is without it comes out as it is if it has no more
nodes than it may have, where it may always have one; otherwise nothing comes out but that the limit is
exceeded. What stops the exploration without the limit is that a firing fails, and then it does under
the limit, or the limit stops it before. -/
theorem build_truncated (net : Net) (config : AnalysisConfig) (limit : Nat) :
    (∀ g, build { config with stateLimit := none } net = .ok g →
      build { config with stateLimit := some limit } net =
        if g.nodeCount ≤ max limit 1 then .ok g else .error (.stateLimitExceeded limit)) ∧
    ∀ e, build { config with stateLimit := none } net = .error e → (∃ f, e = .fire f) ∧
      (build { config with stateLimit := some limit } net = .error e ∨
        build { config with stateLimit := some limit } net = .error (.stateLimitExceeded limit)) := by
  let p := net.problem .word { config with stateLimit := none }
  let rounds := Problem.enoughRounds maxWord net.initialMarking
  have hcut : Truncated limit 1 _ (p.run rounds) ((p.limited limit).run rounds) :=
    Problem.run_truncated rfl limit rounds
  have hok : ∀ x, (p.limited limit).run rounds = .ok x →
      build { config with stateLimit := some limit } net = .ok (ofExploration net x) :=
    fun x h => exploreWithin_eq_ok_iff.2 ⟨x, h, rfl⟩
  have herror : ∀ halt, (p.limited limit).run rounds = .error halt →
      build { config with stateLimit := some limit } net = .error (net.haltError halt) :=
    fun halt h => exploreWithin_eq_error_iff.2 ⟨halt, h, rfl⟩
  constructor
  · intro g hg
    obtain ⟨x, hrun, rfl⟩ := exploreWithin_eq_ok_iff.1 hg
    have hrun : p.run rounds = .ok x := hrun
    rw [hrun] at hcut
    generalize hlimited : (p.limited limit).run rounds = limited at hcut
    cases hcut with
    | within _ _ room => exact (hok x hlimited).trans (if_pos room).symm
    | beyond _ _ full => exact (herror _ hlimited).trans (if_neg (Nat.not_le_of_lt full)).symm
  · intro e he
    refine ⟨exists_fire_of_build_eq_error he, ?_⟩
    obtain ⟨halt, hrun, rfl⟩ := exploreWithin_eq_error_iff.1 he
    have hrun : p.run rounds = .error halt := hrun
    rw [hrun] at hcut
    generalize hlimited : (p.limited limit).run rounds = limited at hcut
    cases hcut with
    | failed => exact .inl (herror _ hlimited)
    | earlier => exact .inr (herror _ hlimited)

/-- A marble that rolls through two bowls: three markings. -/
def marbleNet : Net := .ofScript "marble" [.addPlace ⟨"top", 1, ∅⟩, .createPlace "middle",
  .createPlace "bottom", .createTransition "roll", .createTransition "drop",
  .createFlow "top" "roll" 1, .createFlow "roll" "middle" 1, .createFlow "middle" "drop" 1,
  .createFlow "drop" "bottom" 1]

theorem build_truncated_marbleNet :
    (∃ g, build default marbleNet = .ok g ∧ g.nodeCount = 3 ∧
      build { (default : AnalysisConfig) with stateLimit := some 3 } marbleNet = .ok g ∧
      build { (default : AnalysisConfig) with stateLimit := some 2 } marbleNet =
        .error (.stateLimitExceeded 2)) ∧
    (build { (default : AnalysisConfig) with stateLimit := some 1 } brimNet =
        .error (.fire (.tokenOverflow "fill" "tank")) ∨
      build { (default : AnalysisConfig) with stateLimit := some 1 } brimNet =
        .error (.stateLimitExceeded 1)) := by
  have hok : ∃ g, build default marbleNet = .ok g ∧ g.nodeCount = 3 := ⟨_, rfl, rfl⟩
  have herror : build default brimNet = .error (.fire (.tokenOverflow "fill" "tank")) := rfl
  obtain ⟨g, hg, hcount⟩ := hok
  have hthree := (build_truncated marbleNet default 3).1 g hg
  have htwo := (build_truncated marbleNet default 2).1 g hg
  rw [hcount] at hthree htwo
  exact ⟨⟨g, hg, hcount, hthree, htwo⟩, ((build_truncated brimNet default 1).2 _ herror).2⟩

end CoverabilityGraph

end PetriNets
