import Mathlib.Order.Bounds.Basic
import PetriNets.Coverability.Acceleration
import PetriNets.Proofs.Marking

/-!
# What acceleration does to a marking

Acceleration turns counts into `ω` and does nothing else. Whatever holds of a marking and is kept
when it is accelerated over one marking of the trail that it covers strictly holds of the outcome
(`accelerate_induction`); so acceleration only raises a marking, and where the outcome has no `ω` the
marking is as it was. A place that grew over a marking of the trail gets `ω` in the first pass already
(`count_accelerate_eq_omega`). Each pass that changes a marking gives some place `ω`, so in the end no
pass would change it any more (`accelerate_accelerate`), and no step went further than was necessary:
the outcome is the least marking that has nothing left to accelerate (`isLeast_accelerate`).
-/

namespace PetriNets.Marking

variable {m before : Marking} {trail : Trail} {s : TreeStep} {p : PlaceId}

theorem accelerateOver_of_not_lt (h : ¬ before < m) : m.accelerateOver before = m := by
  unfold accelerateOver
  rw [if_neg (mt strictlyCovers_iff.1 h)]

theorem size_accelerateOver : (m.accelerateOver before).size = m.size := by
  unfold accelerateOver
  split
  · next h =>
    have hs : before.size = m.size := size_eq_of_le (strictlyCovers_iff.1 h).le
    unfold size at hs ⊢
    rw [List.length_zipWith, hs, Nat.min_self]
  · rfl

theorem count_accelerateOver (h : before < m) :
    (m.accelerateOver before).count p =
      if before.count p < m.count p then .omega else m.count p := by
  have hs : before.size = m.size := size_eq_of_le h.le
  by_cases hp : p.index < m.size
  · unfold accelerateOver
    rw [if_pos (strictlyCovers_iff.2 h)]
    have hget : (List.zipWith (fun s t => if compare s t = .lt then .omega else t) before.tokens
        m.tokens)[p.index]? =
        some (if before.count p < m.count p then .omega else m.count p) := by
      rw [List.getElem?_zipWith, tokens_getElem? hp, tokens_getElem? (hs.symm ▸ hp)]
      rfl
    show Option.getD _ _ = _
    rw [hget, Option.getD_some]
  · have hle : m.size ≤ p.index := Nat.le_of_not_lt hp
    rw [count_eq_zero_of_le (size_accelerateOver.symm ▸ hle), count_eq_zero_of_le hle,
      count_eq_zero_of_le (hs.symm ▸ hle), if_neg (lt_irrefl _)]

theorem le_accelerateOver (m before : Marking) : m ≤ m.accelerateOver before := by
  by_cases h : before < m
  · refine ⟨size_accelerateOver.symm, fun p => ?_⟩
    rw [count_accelerateOver h]
    split
    · exact Token.le_omega
    · exact le_refl _
  · rw [accelerateOver_of_not_lt h]

/-! ## Passes -/

theorem acceleratePass_induction {C : Marking → Prop} (start : C m)
    (step : ∀ m, ∀ s ∈ trail, C m → s.marking < m → C (m.accelerateOver s.marking)) :
    C (m.acceleratePass trail) := by
  refine List.foldlRecOn trail _ start fun m hm s hs => ?_
  by_cases h : s.marking < m
  · exact step m s hs hm h
  · rwa [accelerateOver_of_not_lt h]

theorem accelerateWithin_induction {C : Marking → Prop} (fuel : Nat) (start : C m)
    (step : ∀ m, ∀ s ∈ trail, C m → s.marking < m → C (m.accelerateOver s.marking)) :
    C (m.accelerateWithin trail fuel) := by
  induction fuel generalizing m with
  | zero => exact start
  | succ fuel ih =>
    unfold accelerateWithin
    dsimp only
    split
    · exact start
    · exact ih (acceleratePass_induction start step)

/-- What acceleration over each marking of the trail keeps, acceleration along the trail keeps. -/
theorem accelerate_induction {C : Marking → Prop} (start : C m)
    (step : ∀ m, ∀ s ∈ trail, C m → s.marking < m → C (m.accelerateOver s.marking)) :
    C (m.accelerate trail) :=
  accelerateWithin_induction _ start step

/-- Where acceleration changes a marking, it gives `ω`. -/
theorem count_accelerate (m : Marking) (trail : Trail) (p : PlaceId) :
    (m.accelerate trail).count p = m.count p ∨ (m.accelerate trail).count p = .omega := by
  refine accelerate_induction (C := fun m' => m'.count p = m.count p ∨ m'.count p = .omega)
    (.inl rfl) fun m' s _ hm' hlt => ?_
  rw [count_accelerateOver hlt]
  split
  · exact .inr rfl
  · exact hm'

theorem size_accelerate (m : Marking) (trail : Trail) : (m.accelerate trail).size = m.size :=
  accelerate_induction (C := fun m' => m'.size = m.size) rfl fun _ _ _ hm' _ =>
    size_accelerateOver.trans hm'

theorem le_acceleratePass (m : Marking) (trail : Trail) : m ≤ m.acceleratePass trail :=
  acceleratePass_induction (C := (m ≤ ·)) (le_refl m) fun m' s _ hm _ =>
    hm.trans (le_accelerateOver m' s.marking)

theorem le_accelerateWithin (fuel : Nat) (m : Marking) (trail : Trail) :
    m ≤ m.accelerateWithin trail fuel :=
  accelerateWithin_induction (C := (m ≤ ·)) fuel (le_refl m) fun m' s _ hm _ =>
    hm.trans (le_accelerateOver m' s.marking)

theorem le_accelerate (m : Marking) (trail : Trail) : m ≤ m.accelerate trail :=
  le_accelerateWithin _ m trail

theorem acceleratePass_le_accelerate (m : Marking) (trail : Trail) :
    m.acceleratePass trail ≤ m.accelerate trail := by
  unfold accelerate accelerateWithin
  dsimp only
  split
  · next h => rw [h]
  · exact le_accelerateWithin _ _ trail

/-- A place on which a marking grew over one of the trail is given `ω`: by the time that the pass
comes to that marking, it has grown no less. -/
theorem count_accelerate_eq_omega (hs : s ∈ trail) (h : s.marking < m)
    (hp : s.marking.count p < m.count p) : (m.accelerate trail).count p = .omega := by
  obtain ⟨later, earlier, rfl⟩ := List.append_of_mem hs
  have hpass : m.acceleratePass (later ++ s :: earlier) =
      ((m.acceleratePass later).accelerateOver s.marking).acceleratePass earlier := by
    unfold acceleratePass
    rw [List.foldl_append, List.foldl_cons]
  have hgrown : m ≤ m.acceleratePass later := le_acceleratePass m later
  have homega : ((m.acceleratePass later).accelerateOver s.marking).count p = .omega := by
    rw [count_accelerateOver (h.trans_le hgrown),
      if_pos (hp.trans_le (count_le_of_le hgrown p))]
  have hle : .omega ≤ (m.accelerate (later ++ s :: earlier)).count p := by
    rw [← homega]
    refine count_le_of_le (le_trans ?_ (acceleratePass_le_accelerate _ _)) p
    rw [hpass]
    exact le_acceleratePass _ earlier
  exact le_antisymm Token.le_omega hle

/-- Acceleration that leaves no `ω` has changed nothing. -/
theorem accelerate_eq_of_hasOmega_eq_false (h : (m.accelerate trail).hasOmega = false) :
    m.accelerate trail = m := by
  have hcases : m.accelerate trail = m ∨ (m.accelerate trail).hasOmega = true := by
    refine accelerate_induction (C := fun m' => m' = m ∨ m'.hasOmega = true) (.inl rfl) ?_
    intro m' s _ _ hlt
    obtain ⟨-, p, hp⟩ := lt_iff.1 hlt
    refine .inr (hasOmega_iff.2 ⟨p, ?_⟩)
    rw [count_accelerateOver hlt, if_pos hp]
  rcases hcases with heq | homega
  · exact heq
  · rw [h] at homega
    cases homega

/-- Acceleration changes nothing unless some marking of the trail is covered strictly. -/
theorem exists_lt_of_accelerate_ne (h : m.accelerate trail ≠ m) : ∃ s ∈ trail, s.marking < m := by
  by_contra hnone
  push Not at hnone
  refine h (accelerate_induction (C := (· = m)) rfl ?_)
  rintro m' s hs rfl hlt
  exact absurd hlt (hnone s hs)

/-! ## After acceleration nothing is left to accelerate -/

/-- Where a pass changes a marking, it gives `ω`. -/
theorem count_acceleratePass (m : Marking) (trail : Trail) (p : PlaceId) :
    (m.acceleratePass trail).count p = m.count p ∨ (m.acceleratePass trail).count p = .omega := by
  refine acceleratePass_induction (C := fun m' => m'.count p = m.count p ∨ m'.count p = .omega)
    (.inl rfl) ?_
  intro m' s _ hm' hlt
  rw [count_accelerateOver hlt]
  split
  · exact .inr rfl
  · exact hm'

theorem omegaCount_lt_acceleratePass (h : m.acceleratePass trail ≠ m) :
    m.omegaCount < (m.acceleratePass trail).omegaCount := by
  have hle : m ≤ m.acceleratePass trail := le_acceleratePass m trail
  obtain ⟨-, p, hp⟩ := lt_iff.1 (lt_of_le_of_ne hle h.symm)
  rcases count_acceleratePass m trail p with hsame | homega
  · rw [hsame] at hp
    exact absurd hp (lt_irrefl _)
  · refine omegaCount_lt hle (fun hm => ?_) homega
    rw [hm] at hp
    exact Token.not_omega_lt hp

/-- So many passes, the last of which changes nothing, lead from one marking to another. -/
inductive Passes (trail : Trail) : Nat → Marking → Marking → Prop where
  | last {m : Marking} (stable : m.acceleratePass trail = m) : Passes trail 1 m m
  | more {m n : Marking} {k : Nat} (changed : m.acceleratePass trail ≠ m)
      (rest : Passes trail k (m.acceleratePass trail) n) : Passes trail (k + 1) m n

theorem Passes.stable {k : Nat} {n : Marking} (h : Passes trail k m n) : n.acceleratePass trail = n := by
  induction h with
  | last stable => exact stable
  | more _ _ ih => exact ih

theorem exists_passes_accelerateWithin {fuel : Nat} (h : m.size < fuel + m.omegaCount) :
    ∃ k ≤ fuel, Passes trail k m (m.accelerateWithin trail fuel) := by
  induction fuel generalizing m with
  | zero =>
    have hcount := m.omegaCount_le_size
    omega
  | succ fuel ih =>
    unfold accelerateWithin
    dsimp only
    split
    · next hfix => exact ⟨1, Nat.le_add_left 1 fuel, .last hfix⟩
    · next hchange =>
      have hgrown := omegaCount_lt_acceleratePass hchange
      have hsize := size_eq_of_le (le_acceleratePass m trail)
      obtain ⟨k, hk, hpasses⟩ := ih (m := m.acceleratePass trail) (by omega)
      exact ⟨k + 1, Nat.succ_le_succ hk, .more hchange hpasses⟩

/-- There is fuel for as many passes as there can be changes. -/
theorem exists_passes_accelerate (m : Marking) (trail : Trail) :
    ∃ k ≤ m.size + 1, Passes trail k m (m.accelerate trail) :=
  exists_passes_accelerateWithin (by omega)

theorem acceleratePass_accelerate (m : Marking) (trail : Trail) :
    (m.accelerate trail).acceleratePass trail = m.accelerate trail := by
  obtain ⟨k, -, hpasses⟩ := exists_passes_accelerate m trail
  exact hpasses.stable

theorem accelerate_accelerate (m : Marking) (trail : Trail) :
    (m.accelerate trail).accelerate trail = m.accelerate trail := by
  conv_lhs => unfold accelerate accelerateWithin
  dsimp only
  exact if_pos (acceleratePass_accelerate m trail)

/-- An accelerated marking has `ω` wherever it holds more than a marking of the trail that it covers. -/
theorem eq_omega_of_lt_accelerate (hs : s ∈ trail) (h : s.marking < m.accelerate trail)
    (hp : s.marking.count p < (m.accelerate trail).count p) :
    (m.accelerate trail).count p = .omega := by
  have homega := count_accelerate_eq_omega hs h hp
  rwa [accelerate_accelerate] at homega

/-! ## The least marking that is settled -/

/-- Nothing is left to accelerate over the second marking: where it is covered, the first one has `ω`
on every place that grew. -/
def SettledOver (m before : Marking) : Prop :=
  before ≤ m → ∀ p, before.count p < m.count p → m.count p = .omega

theorem accelerateOver_eq_self_iff : m.accelerateOver before = m ↔ m.SettledOver before := by
  constructor
  · intro h hle p hp
    rw [← h, count_accelerateOver (lt_iff.2 ⟨hle, p, hp⟩), if_pos hp]
  · intro h
    by_cases hlt : before < m
    · refine ext_count size_accelerateOver fun p _ => ?_
      rw [count_accelerateOver hlt]
      split
      · next hp => exact (h hlt.le p hp).symm
      · rfl
    · exact accelerateOver_of_not_lt hlt

/-- Acceleration stays below every marking that is settled. -/
theorem accelerateOver_le {n : Marking} (hle : m ≤ n) (h : n.SettledOver before) :
    m.accelerateOver before ≤ n := by
  by_cases hlt : before < m
  · refine ⟨size_accelerateOver.trans (size_eq_of_le hle), fun p => ?_⟩
    rw [count_accelerateOver hlt]
    split
    · next hp =>
      rw [h (hlt.le.trans hle) p (hp.trans_le (count_le_of_le hle p))]
    · exact count_le_of_le hle p
  · rwa [accelerateOver_of_not_lt hlt]

theorem isLeast_accelerate (m : Marking) (trail : Trail) :
    IsLeast {n | m ≤ n ∧ ∀ s ∈ trail, n.SettledOver s.marking} (m.accelerate trail) := by
  refine ⟨⟨le_accelerate m trail, ?_⟩, ?_⟩
  · intro s hs hle p hp
    exact eq_omega_of_lt_accelerate hs (lt_iff.2 ⟨hle, p, hp⟩) hp
  · rintro n ⟨hle, hsettled⟩
    refine accelerate_induction (C := (· ≤ n)) hle ?_
    intro m' s hs hm' _
    exact accelerateOver_le hm' (hsettled s hs)

/-- What a trail accelerates depends on its markings alone. -/
theorem accelerate_congr {trail' : Trail}
    (h : trail.map TreeStep.marking = trail'.map TreeStep.marking) :
    m.accelerate trail = m.accelerate trail' := by
  have hpass : ∀ m : Marking, m.acceleratePass trail = m.acceleratePass trail' := by
    intro m
    unfold acceleratePass
    rw [← List.foldl_map, h, List.foldl_map]
  have hwithin : ∀ fuel (m : Marking),
      m.accelerateWithin trail fuel = m.accelerateWithin trail' fuel := by
    intro fuel
    induction fuel with
    | zero => exact fun _ => rfl
    | succ fuel ih =>
      intro m
      unfold accelerateWithin
      dsimp only
      rw [hpass m, ih]
  exact hwithin _ _

end PetriNets.Marking
