import PetriNets.Proofs.Effect
import PetriNets.Proofs.Net.InStep

/-!
# The state equation

Where a sequence of transitions can be fired, the marking after it is the one before it and the effect of
each transition, as often as it occurs. The equation is over the integers, although the counts are words
that are checked at each step, and it holds place by place: a place that holds `ω` keeps it
(`changesBy_of_fireSequenceWithin`). A place thus does not tell in which order the transitions were fired,
so that two orders which can both be fired lead to one marking. What stops a sequence is the first
transition that is refused where those before it have led; as many of them as its position tells can be
fired, and no more.
-/

namespace PetriNets.Net

/-- How often a transition occurs in a sequence, whatever it is meant by. -/
def occurrences (net : Net) (rs : List TransitionRef) (t : TransitionId) : Nat :=
  rs.countP fun r => net.resolve r = .ok t

/-- What the transitions of a sequence do to a place together. -/
def sequenceEffect (net : Net) (rs : List TransitionRef) (p : PlaceId) : Int :=
  ∑ k : Fin net.transitionCount, net.occurrences rs ⟨k⟩ * net.effectOn ⟨k⟩ p

variable {net : Net} {cap : Capacity} {m m' m'' : Marking} {t : TransitionId} {p : PlaceId}
  {r : TransitionRef} {rs rs' : List TransitionRef}

/-! ## Adding up the effects -/

@[simp] theorem sequenceEffect_nil (net : Net) (p : PlaceId) : net.sequenceEffect [] p = 0 := by
  simp [sequenceEffect, occurrences]

theorem sequenceEffect_cons (h : net.resolve r = .ok t) :
    net.sequenceEffect (r :: rs) p = net.effectOn t p + net.sequenceEffect rs p := by
  refine sum_mul_eq_add _ ⟨t.index, index_lt_of_resolve h⟩ fun k => ?_
  unfold occurrences
  rw [List.countP_cons]
  congr 1
  refine if_congr ?_ rfl rfl
  rw [decide_eq_true_iff, h]
  constructor
  · exact fun heq => Fin.ext (congrArg Id.index (Except.ok.inj heq).symm)
  · rintro rfl
    rfl

theorem sequenceEffect_perm (h : rs.Perm rs') : net.sequenceEffect rs = net.sequenceEffect rs' := by
  funext p
  unfold sequenceEffect occurrences
  simp only [h.countP_eq]

/-! ## Sequences that can be fired -/

theorem size_of_fireSequenceWithin (h : net.fireSequenceWithin cap m rs = .ok m') :
    m'.size = m.size := by
  induction rs generalizing m with
  | nil => exact congrArg Marking.size (Except.ok.inj h).symm
  | cons r rs ih =>
    obtain ⟨l, hfirst, hrest⟩ := fireSequenceWithin_cons_eq_ok_iff.1 h
    obtain ⟨-, _, -, hstep⟩ := fireWithin_eq_ok_iff_resolve.1 hfirst
    exact (ih hrest).trans hstep.size_eq

theorem changesBy_of_fireSequenceWithin (h : net.fireSequenceWithin cap m rs = .ok m')
    (hp : p.index < m.size) : (m.count p).ChangesBy (net.sequenceEffect rs p) (m'.count p) := by
  induction rs generalizing m with
  | nil =>
    obtain rfl := Except.ok.inj h
    rw [sequenceEffect_nil]
    exact .zero _
  | cons r rs ih =>
    obtain ⟨l, hfirst, hrest⟩ := fireSequenceWithin_cons_eq_ok_iff.1 h
    obtain ⟨hsize, _, -, hstep⟩ := fireWithin_eq_ok_iff_resolve.1 hfirst
    obtain ⟨t, ht, hchange⟩ := changesBy_of_fireWithin hfirst (hsize ▸ hp)
    rw [sequenceEffect_cons ht]
    exact hchange.trans (ih hrest (hstep.size_eq.symm ▸ hp))

/-- The order of the transitions does not tell in the marking. -/
theorem eq_of_fireSequenceWithin_perm (hperm : rs.Perm rs')
    (h : net.fireSequenceWithin cap m rs = .ok m')
    (h' : net.fireSequenceWithin cap m rs' = .ok m'') : m'' = m' := by
  have hsize := size_of_fireSequenceWithin h
  have hsize' := size_of_fireSequenceWithin h'
  refine Marking.ext_count (hsize'.trans hsize.symm) fun p hp => ?_
  have hchange := changesBy_of_fireSequenceWithin h (hsize' ▸ hp)
  rw [sequenceEffect_perm hperm] at hchange
  exact (changesBy_of_fireSequenceWithin h' (hsize' ▸ hp)).unique hchange

/-! ## Sequences that fail -/

theorem exists_fireSequenceWithin_take (h : net.fireSequenceWithin cap m rs = .ok m') (k : Nat) :
    ∃ l, net.fireSequenceWithin cap m (rs.take k) = .ok l := by
  rw [← List.take_append_drop k rs] at h
  unfold fireSequenceWithin at h ⊢
  rw [fireSequenceFrom_append, bind_eq_ok_iff] at h
  obtain ⟨l, hl, -⟩ := h
  exact ⟨l, hl⟩

/-- Where a transition is refused, the sequences before it can be fired, and none of those that it
belongs to. -/
theorem exists_fireSequenceWithin_take_iff {l : Marking} {source : FireError}
    (rest : List TransitionRef) (hdone : net.fireSequenceWithin cap m rs = .ok l)
    (hnext : net.fireWithin cap l r = .error source) (k : Nat) :
    (∃ l', net.fireSequenceWithin cap m ((rs ++ r :: rest).take k) = .ok l') ↔ k ≤ rs.length := by
  constructor
  · rintro ⟨l', hl'⟩
    by_contra hlt
    obtain ⟨j, hj⟩ : ∃ j, k - rs.length = j + 1 := ⟨k - rs.length - 1, by omega⟩
    rw [List.take_append, List.take_of_length_le (by omega), hj, List.take_succ_cons,
      fireSequenceWithin_eq_error_of_fireWithin _ hdone hnext] at hl'
    cases hl'
  · intro hle
    rw [List.take_append_of_le_length hle]
    exact exists_fireSequenceWithin_take hdone k

/-- The state equation. If a sequence can be fired, then on every place the marking changes by the
effects of the transitions, each taken as often as it occurs in the sequence, and any other order of the
sequence that can be fired leads to the same marking. If it cannot, then the error tells how long the
longest beginning is that can be fired, and why the next transition is refused where this one leads. -/
theorem fireSequence_state_equation (net : Net) (m : Marking) (ts : List TransitionRef) :
    (∀ m', net.fireSequence m ts = .ok m' → m'.size = m.size ∧
      (∀ p, p.index < m.size → (m.count p).ChangesBy (net.sequenceEffect ts p) (m'.count p)) ∧
      ∀ us m'', ts.Perm us → net.fireSequence m us = .ok m'' → m'' = m') ∧
    ∀ e, net.fireSequence m ts = .error e → ∃ done t rest l source,
      ts = done ++ t :: rest ∧ e = .inSequence done.length source ∧
      net.fireSequence m done = .ok l ∧ net.fire l t = .error source ∧
      ∀ k, (∃ l', net.fireSequence m (ts.take k) = .ok l') ↔ k ≤ done.length := by
  constructor
  · intro m' h
    exact ⟨size_of_fireSequenceWithin h, fun p hp => changesBy_of_fireSequenceWithin h hp,
      fun us m'' hperm hus => eq_of_fireSequenceWithin_perm hperm h hus⟩
  · intro e h
    obtain ⟨done, t, rest, l, source, rfl, hdone, hnext, rfl⟩ :=
      exists_of_fireSequenceWithin_eq_error h
    exact ⟨done, t, rest, l, source, rfl, rfl, hdone, hnext,
      exists_fireSequenceWithin_take_iff rest hdone hnext⟩

/-- A ferry that takes two of the cars on board at a time, if the bridge is manned, and puts them ashore
one by one. -/
def ferryNet : Net := .ofScript "ferry" [.createPlace "road", .createPlace "deck",
  .createPlace "shore", .createPlace "bridge", .createTransition "board", .createTransition "land",
  .createFlow "road" "board" 2, .createFlow "board" "deck" 2, .createFlow "bridge" "board" 1,
  .createFlow "board" "bridge" 1, .createFlow "deck" "land" 1, .createFlow "land" "shore" 1]

/-- There is no end of cars on the road. To board does not change the bridge, and it does not matter when
a car lands; but no third one can land before the ferry has been boarded again. -/
theorem state_equation_ferryNet :
    let m : Marking := ⟨[.omega, .finite 0, .finite 0, .finite 1]⟩
    let board := TransitionRef.name "board"
    let land := TransitionRef.number ⟨1⟩
    ferryNet.fireSequence m [board, board, land] =
        .ok ⟨[.omega, .finite 3, .finite 1, .finite 1]⟩ ∧
      Token.ChangesBy (.finite 0) (ferryNet.sequenceEffect [board, board, land] ⟨1⟩) (.finite 3) ∧
      Token.ChangesBy (.finite 1) (ferryNet.sequenceEffect [board, board, land] ⟨3⟩) (.finite 1) ∧
      (∀ m'', ferryNet.fireSequence m [board, land, board] = .ok m'' →
        m'' = ⟨[.omega, .finite 3, .finite 1, .finite 1]⟩) ∧
      ∀ k, (∃ l, ferryNet.fireSequence m ([board, land, land, land, board].take k) = .ok l) ↔
        k ≤ 3 := by
  intro m board land
  have hfire : ferryNet.fireSequence m [board, board, land] =
      .ok ⟨[.omega, .finite 3, .finite 1, .finite 1]⟩ := by decide
  have hfail : ferryNet.fireSequence m [board, land, land, land, board] =
      .error (.inSequence 3 (.notEnabled "land" "deck" 1 (.finite 0))) := by decide
  obtain ⟨-, hchange, hperm⟩ := (fireSequence_state_equation ferryNet m _).1 _ hfire
  obtain ⟨done, _, _, _, _, -, he, -, -, hlongest⟩ :=
    (fireSequence_state_equation ferryNet m _).2 _ hfail
  have hlength : 3 = done.length := (FireError.inSequence.inj he).1
  have horder : [board, board, land].Perm [board, land, board] := by decide
  exact ⟨hfire, hchange ⟨1⟩ (by decide), hchange ⟨3⟩ (by decide),
    fun _ hm'' => hperm _ _ horder hm'', hlength ▸ hlongest⟩

end PetriNets.Net
