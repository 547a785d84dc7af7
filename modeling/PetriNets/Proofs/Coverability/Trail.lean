import PetriNets.Proofs.Coverability.Acceleration
import PetriNets.Proofs.Coverability.Exploration
import PetriNets.Proofs.FiringSequence

/-!
# Where the marking of a node comes from

The marking of a node is what its trail makes of the initial marking, by firing and acceleration in
turn (`Derives`). This is true at every moment of an exploration, so what holds of all derivations
holds of all nodes (`derives_of_run`).
-/

namespace PetriNets

/-- Where a place holds `ω` before a step, it does so after it. -/
theorem Incidence.Step.count_accelerate_eq_omega {inc : Incidence} {cap : Capacity}
    {t : TransitionId} {m fired : Marking} (h : inc.Step cap m t fired) (trail : Trail) {q : PlaceId}
    (hq : m.count q = .omega) : (fired.accelerate trail).count q = .omega := by
  obtain ⟨a, -, hfire⟩ := h
  rcases Marking.count_accelerate fired trail q with hsame | homega
  · rw [hsame]
    exact (Arcs.count_eq_omega_iff_of_fire hfire q).2 hq
  · exact homega

namespace Problem

/-- A trail derives a marking from the initial one: the last transition of the trail is fired at the
marking that the earlier steps derive, and the outcome is accelerated along the trail. -/
inductive Derives (p : Problem) : Trail → Marking → Prop where
  | root : Derives p [] p.initial
  | step {s : TreeStep} {trail : Trail} {fired : Marking} (earlier : Derives p trail s.marking)
      (fire : p.incidence.Step p.capacity s.marking s.transition fired) :
      Derives p (s :: trail) (fired.accelerate (s :: trail))

variable {p : Problem} {x y : Exploration} {rounds : Nat} {id : NodeId} {m : Marking} {trail : Trail}

theorem step_of_mem_enabledArcs {t : TransitionId} {a : Arcs} {fired : Marking}
    (hmem : (t, a) ∈ p.incidence.enabledArcs m) (hfire : a.fire p.capacity m = .ok fired) :
    p.incidence.Step p.capacity m t fired :=
  ⟨a, (Incidence.mem_enabledArcs.1 hmem).1, hfire⟩

/-- The markings of all nodes are derived by their trails. -/
def DerivesAll (p : Problem) (x : Exploration) : Prop :=
  ∀ id m trail, x.Found id m trail → p.Derives trail m

theorem derivesAll_start (p : Problem) : p.DerivesAll (.start p.initial) := by
  intro i m trail hf
  obtain ⟨-, rfl, rfl⟩ := Exploration.found_start_iff.1 hf
  exact .root

theorem kept_derivesAll (p : Problem) : Exploration.Kept p p.DerivesAll where
  pop _ _ hx := hx
  follow id node t a fired target x y hnode hmem hfire hstep hx i m trail hf := by
    rcases hstep.found_cases hf with hold | ⟨-, rfl, rfl⟩
    · exact hx i m trail hold
    · exact .step (hx id _ _ (Exploration.found_of_get? hnode)) (step_of_mem_enabledArcs hmem hfire)
  finish id node status x hnode hx i m trail hf :=
    hx i m trail ((Exploration.found_setStatus_iff hnode).1 hf)

theorem derives_of_run (h : p.run rounds = .ok x) (hfound : x.Found id m trail) :
    p.Derives trail m :=
  p.kept_derivesAll.run p.derivesAll_start h id m trail hfound

/-! ## Trails without `ω` -/

theorem transitions_cons (s : TreeStep) (trail : Trail) :
    Trail.transitions (s :: trail) = Trail.transitions trail ++ [s.transition] := by
  unfold Trail.transitions
  rw [List.map_cons, List.reverse_cons]

/-- The last step to a marking without `ω` was a firing and nothing more. -/
theorem Derives.last_step {s : TreeStep} (h : p.Derives (s :: trail) m) (hm : m.hasOmega = false) :
    p.Derives trail s.marking ∧ s.marking.hasOmega = false ∧
      p.incidence.Step p.capacity s.marking s.transition m := by
  cases h with
  | @step _ _ fired earlier fire =>
    have heq := Marking.accelerate_eq_of_hasOmega_eq_false hm
    rw [heq] at hm ⊢
    exact ⟨earlier, fire.hasOmega_eq.symm.trans hm, fire⟩

/-- A trail that derives a marking without `ω` is a firing sequence. -/
theorem Derives.run (h : p.Derives trail m) (hm : m.hasOmega = false) :
    p.incidence.Run p.capacity p.initial trail.transitions m := by
  induction trail generalizing m with
  | nil =>
    cases h
    exact .nil p.initial
  | cons s trail ih =>
    obtain ⟨hs, homega, fire⟩ := h.last_step hm
    rw [transitions_cons, Incidence.Run.concat_iff]
    exact ⟨s.marking, ih hs homega, fire⟩

/-- Wherever the way to a finite marking that has been fired is cut, the earlier part of it derives
the marking at the cut, and the later part is a firing sequence from there. -/
theorem cut_of_fired {last s : TreeStep} {later earlier : Trail} {fired : Marking}
    (h : p.Derives trail last.marking)
    (fire : p.incidence.Step p.capacity last.marking last.transition fired)
    (hfired : fired.hasOmega = false) (hcut : last :: trail = later ++ s :: earlier) :
    p.Derives earlier s.marking ∧ s.marking.hasOmega = false ∧
      p.incidence.Run p.capacity s.marking (Trail.transitions (later ++ [s])) fired := by
  have hlast : last.marking.hasOmega = false := fire.hasOmega_eq.symm.trans hfired
  induction later generalizing last trail fired with
  | nil =>
    obtain ⟨rfl, rfl⟩ := List.cons.inj hcut
    exact ⟨h, hlast, .single fire⟩
  | cons last' later ih =>
    obtain ⟨rfl, htrail⟩ := List.cons.inj hcut
    -- the cut lies further back, behind a step to the finite marking that `last` was fired at
    cases trail with
    | nil => exact absurd htrail.symm (List.append_ne_nil_of_right_ne_nil _ (List.cons_ne_nil s _))
    | cons before trail =>
      obtain ⟨h', homega, fire'⟩ := h.last_step hlast
      obtain ⟨hearlier, hs, hrun⟩ := ih h' fire' hlast htrail homega
      refine ⟨hearlier, hs, ?_⟩
      rw [List.cons_append, transitions_cons, Incidence.Run.concat_iff]
      exact ⟨last.marking, hrun, fire⟩

end Problem

end PetriNets
