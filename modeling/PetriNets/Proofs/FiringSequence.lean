import Mathlib.Data.List.Induction
import Mathlib.Data.Set.Basic
import PetriNets.Net.Firing
import PetriNets.Proofs.Arcs
import PetriNets.Proofs.Except

/-!
# Firing sequences

`Incidence.Run` is the token game by number alone: a marking, the transitions that are fired from it,
and the marking that they lead to. It is what firing a sequence in a net means
(`fireSequenceWithin_eq_ok_iff`), and it inherits from single steps that tokens which are added to the
first marking stay to the last one (`Run.plus`). A sequence that cannot be fired tells which of its
transitions is refused, once those before it have been fired (`exists_of_fireSequenceWithin_eq_error`).
A marking is reachable in a net if some sequence leads to it where the places hold any number of tokens.
-/

namespace PetriNets

namespace Incidence

/-- Firing the transition `t` leads from the first marking to the second one. -/
def Step (inc : Incidence) (cap : Capacity) (m : Marking) (t : TransitionId) (m' : Marking) : Prop :=
  ∃ a, inc.arcs.get? t = some a ∧ a.fire cap m = .ok m'

/-- Firing the transitions of a list, one after the other, leads from the first marking to the
second one. -/
inductive Run (inc : Incidence) (cap : Capacity) : Marking → List TransitionId → Marking → Prop where
  | nil (m : Marking) : Run inc cap m [] m
  | cons {m m' m'' : Marking} {t : TransitionId} {ts : List TransitionId}
      (step : inc.Step cap m t m') (rest : Run inc cap m' ts m'') : Run inc cap m (t :: ts) m''

variable {inc : Incidence} {cap : Capacity} {m m' m'' : Marking} {t : TransitionId}
  {ts us : List TransitionId}

theorem Step.unlimited (h : inc.Step cap m t m') : inc.Step none m t m' := by
  obtain ⟨a, ha, hfire⟩ := h
  exact ⟨a, ha, Arcs.fire_none_of_fire hfire⟩

theorem Step.size_eq (h : inc.Step cap m t m') : m'.size = m.size := by
  obtain ⟨a, _, hfire⟩ := h
  exact Arcs.size_of_fire hfire

theorem Step.plus (d : PlaceId → Nat) (h : inc.Step none m t m') :
    inc.Step none (m.plus d) t (m'.plus d) := by
  obtain ⟨a, ha, hfire⟩ := h
  exact ⟨a, ha, Arcs.fire_plus d hfire⟩

theorem Step.hasOmega_eq (h : inc.Step cap m t m') : m'.hasOmega = m.hasOmega := by
  obtain ⟨a, _, hfire⟩ := h
  exact Arcs.hasOmega_of_fire hfire

namespace Run

theorem single (h : inc.Step cap m t m') : inc.Run cap m [t] m' := .cons h (.nil m')

theorem append (h : inc.Run cap m ts m') (h' : inc.Run cap m' us m'') :
    inc.Run cap m (ts ++ us) m'' := by
  induction h with
  | nil => exact h'
  | cons step _ ih => exact .cons step (ih h')

theorem append_iff : inc.Run cap m (ts ++ us) m'' ↔
    ∃ m', inc.Run cap m ts m' ∧ inc.Run cap m' us m'' := by
  refine ⟨fun h => ?_, fun ⟨_, h, h'⟩ => h.append h'⟩
  induction ts generalizing m with
  | nil => exact ⟨m, .nil m, h⟩
  | cons t ts ih =>
    cases h with
    | cons step rest =>
      obtain ⟨m', hts, hus⟩ := ih rest
      exact ⟨m', .cons step hts, hus⟩

theorem concat_iff : inc.Run cap m (ts ++ [t]) m'' ↔
    ∃ m', inc.Run cap m ts m' ∧ inc.Step cap m' t m'' := by
  rw [append_iff]
  refine exists_congr fun m' => and_congr_right fun _ => ⟨fun h => ?_, single⟩
  cases h with
  | cons step rest =>
    cases rest
    exact step

theorem unlimited (h : inc.Run cap m ts m') : inc.Run none m ts m' := by
  induction h with
  | nil => exact .nil _
  | cons step _ ih => exact .cons step.unlimited ih

theorem size_eq (h : inc.Run cap m ts m') : m'.size = m.size := by
  induction h with
  | nil => rfl
  | cons step _ ih => exact ih.trans step.size_eq

theorem hasOmega_eq (h : inc.Run cap m ts m') : m'.hasOmega = m.hasOmega := by
  induction h with
  | nil => rfl
  | cons step _ ih => exact ih.trans step.hasOmega_eq

/-- Tokens that are added to the first marking stay to the last one. -/
theorem plus (d : PlaceId → Nat) (h : inc.Run none m ts m') :
    inc.Run none (m.plus d) ts (m'.plus d) := by
  induction h with
  | nil => exact .nil _
  | cons step _ ih => exact .cons (step.plus d) ih

end Run

end Incidence

/-! ## Firing in a net -/

namespace Net

variable {net : Net} {cap : Capacity} {m m' : Marking} {t : TransitionId} {ts : List TransitionId}
  {r r' : TransitionRef} {rs rs' : List TransitionRef} {position : Nat}

theorem arcs_get?_eq_some_iff {a : Arcs} : net.incidence.arcs.get? t = some a ↔
    t.index < net.transitionCount ∧ a = net.arcsNamed (net.transitionName t) := by
  have hlength : net.transitionIds.length = net.transitionCount := List.length_map _
  unfold incidence transitionName
  rw [Table.get?_eq, Table.toList_ofList, List.getElem?_map, Option.map_eq_some_iff]
  constructor
  · rintro ⟨id, hid, rfl⟩
    exact ⟨hlength ▸ (List.getElem?_eq_some_iff.1 hid).1, by rw [hid, Option.getD_some]⟩
  · rintro ⟨hlt, rfl⟩
    rw [List.getElem?_eq_getElem (hlength.symm ▸ hlt), Option.getD_some]
    exact ⟨_, rfl, rfl⟩

theorem checkMarking_eq_ok_iff {u : Unit} :
    net.checkMarking m = .ok u ↔ m.size = net.placeCount := by
  unfold checkMarking
  split
  · next h => exact iff_of_true rfl h
  · next h => exact iff_of_false nofun h

theorem resolve_number_eq_ok_iff {id : TransitionId} :
    net.resolve (.number t) = .ok id ↔ t.index < net.transitionCount ∧ id = t := by
  unfold resolve
  dsimp only
  split
  · next h => exact ⟨fun h' => ⟨h, (Except.ok.inj h').symm⟩, fun ⟨_, h'⟩ => congrArg _ h'.symm⟩
  · next h => exact iff_of_false nofun fun h' => h h'.1

theorem resolve_name_eq_ok_iff {id : String} :
    net.resolve (.name id) = .ok t ↔ net.transitionIndex? id = some t := by
  unfold resolve
  dsimp only
  cases net.transitionIndex? id with
  | none => exact ⟨nofun, nofun⟩
  | some u => exact ⟨fun h => congrArg some (Except.ok.inj h), fun h => congrArg _ (Option.some.inj h)⟩

/-- Whatever it is meant by, a transition is one of the net. -/
theorem index_lt_of_resolve (h : net.resolve r = .ok t) : t.index < net.transitionCount := by
  cases r with
  | number u =>
    obtain ⟨hlt, rfl⟩ := resolve_number_eq_ok_iff.1 h
    exact hlt
  | name id =>
    obtain ⟨i, hi, rfl⟩ := Option.map_eq_some_iff.1 (resolve_name_eq_ok_iff.1 h)
    have hlength : net.transitionIds.length = net.transitionCount := List.length_map _
    exact hlength ▸ (List.findIdx?_eq_some_iff_getElem.1 hi).1

theorem fireWithin_eq_mapError (hm : m.size = net.placeCount) (ht : net.resolve r = .ok t) :
    net.fireWithin cap m r =
      ((net.arcsNamed (net.transitionName t)).fire cap m).mapError (net.faultError t) := by
  unfold fireWithin
  rw [checkMarking_eq_ok_iff (u := ()) |>.2 hm, ht]
  rfl

/-- By what a transition is meant does not matter, if it is the same one. -/
theorem fireWithin_congr (h : net.resolve r = net.resolve r') :
    net.fireWithin cap m r = net.fireWithin cap m r' := by
  unfold fireWithin
  rw [h]

theorem fireWithin_eq_ok_iff : net.fireWithin cap m (.number t) = .ok m' ↔
    m.size = net.placeCount ∧ net.incidence.Step cap m t m' := by
  unfold fireWithin Incidence.Step
  simp only [bind_eq_ok_iff, mapError_eq_ok_iff, checkMarking_eq_ok_iff, resolve_number_eq_ok_iff,
    arcs_get?_eq_some_iff]
  constructor
  · rintro ⟨_, hm, _, ⟨ht, rfl⟩, hfire⟩
    exact ⟨hm, _, ⟨ht, rfl⟩, hfire⟩
  · rintro ⟨hm, _, ⟨ht, rfl⟩, hfire⟩
    exact ⟨(), hm, t, ⟨ht, rfl⟩, hfire⟩

/-- Firing a transition of either meaning is a step of the one that it resolves to. -/
theorem fireWithin_eq_ok_iff_resolve : net.fireWithin cap m r = .ok m' ↔
    m.size = net.placeCount ∧ ∃ t, net.resolve r = .ok t ∧ net.incidence.Step cap m t m' := by
  constructor
  · intro h
    obtain ⟨-, -, hrest⟩ := bind_eq_ok_iff.1 h
    obtain ⟨t, ht, -⟩ := bind_eq_ok_iff.1 hrest
    have hnumber := resolve_number_eq_ok_iff.2 ⟨index_lt_of_resolve ht, rfl⟩
    rw [fireWithin_congr (ht.trans hnumber.symm), fireWithin_eq_ok_iff] at h
    exact ⟨h.1, t, ht, h.2⟩
  · rintro ⟨hm, t, ht, hstep⟩
    have hnumber := resolve_number_eq_ok_iff.2 ⟨index_lt_of_resolve ht, rfl⟩
    rw [fireWithin_congr (ht.trans hnumber.symm), fireWithin_eq_ok_iff]
    exact ⟨hm, hstep⟩

/-! ### Sequences -/

theorem fireSequenceFrom_append (rs rs' : List TransitionRef) :
    net.fireSequenceFrom cap position m (rs ++ rs') =
      net.fireSequenceFrom cap position m rs >>= fun l =>
        net.fireSequenceFrom cap (position + rs.length) l rs' := by
  induction rs generalizing m position with
  | nil => rfl
  | cons r rs ih =>
    rw [List.cons_append, fireSequenceFrom, fireSequenceFrom, bind_assoc]
    refine bind_congr fun l => ?_
    rw [ih, List.length_cons, Nat.add_right_comm, Nat.add_assoc]

theorem fireSequenceFrom_congr (h : rs.map net.resolve = rs'.map net.resolve) :
    net.fireSequenceFrom cap position m rs = net.fireSequenceFrom cap position m rs' := by
  induction rs generalizing rs' m position with
  | nil => rw [List.map_eq_nil_iff.1 h.symm]
  | cons r rs ih =>
    obtain ⟨r', rs', rfl, hr, hrs⟩ := List.map_eq_cons_iff.1 h.symm
    rw [fireSequenceFrom, fireSequenceFrom, fireWithin_congr hr]
    exact bind_congr fun l => ih hrs.symm

/-- A sequence that can be fired is a fold over firings, wherever its positions begin. -/
theorem fireSequenceFrom_eq_ok_iff : net.fireSequenceFrom cap position m rs = .ok m' ↔
    rs.foldlM (net.fireWithin cap) m = .ok m' := by
  induction rs generalizing m position with
  | nil => exact .rfl
  | cons r rs ih =>
    rw [fireSequenceFrom, List.foldlM_cons, bind_eq_ok_iff, bind_eq_ok_iff]
    simp only [mapError_eq_ok_iff, ih]

theorem fireSequenceWithin_cons_eq_ok_iff : net.fireSequenceWithin cap m (r :: rs) = .ok m' ↔
    ∃ l, net.fireWithin cap m r = .ok l ∧ net.fireSequenceWithin cap l rs = .ok m' := by
  unfold fireSequenceWithin
  rw [fireSequenceFrom, bind_eq_ok_iff]
  simp only [mapError_eq_ok_iff, fireSequenceFrom_eq_ok_iff]

/-- A sequence stops at a transition that is refused where those before it have led. -/
theorem fireSequenceWithin_eq_error_of_fireWithin {l : Marking} {source : FireError}
    (rest : List TransitionRef) (hdone : net.fireSequenceWithin cap m rs = .ok l)
    (hnext : net.fireWithin cap l r = .error source) :
    net.fireSequenceWithin cap m (rs ++ r :: rest) = .error (.inSequence rs.length source) := by
  unfold fireSequenceWithin at hdone ⊢
  rw [fireSequenceFrom_append, hdone]
  show net.fireSequenceFrom cap (0 + rs.length) l (r :: rest) = _
  rw [fireSequenceFrom, hnext, Nat.zero_add]
  rfl

/-- A sequence fails where some transition of it is refused, which is told with its position; the
ones before it can be fired. -/
theorem exists_of_fireSequenceWithin_eq_error {e : FireError}
    (h : net.fireSequenceWithin cap m rs = .error e) : ∃ done r rest l source,
      rs = done ++ r :: rest ∧ net.fireSequenceWithin cap m done = .ok l ∧
        net.fireWithin cap l r = .error source ∧ e = .inSequence done.length source := by
  induction rs using List.reverseRecOn with
  | nil => cases h
  | append_singleton rs r ih =>
    unfold fireSequenceWithin at h
    rw [fireSequenceFrom_append, bind_eq_error_iff] at h
    rcases h with hbefore | ⟨l, hl, hlast⟩
    · obtain ⟨done, r', rest, l, source, rfl, hdone, hnext, he⟩ := ih hbefore
      exact ⟨done, r', rest ++ [r], l, source, by simp, hdone, hnext, he⟩
    · refine ⟨rs, r, [], l, ?_⟩
      rw [fireSequenceFrom, bind_eq_error_iff] at hlast
      rcases hlast with hrefused | ⟨l', -, hnil⟩
      · obtain ⟨source, hsource, rfl⟩ := mapError_eq_error_iff.1 hrefused
        exact ⟨source, rfl, hl, hsource, by rw [Nat.zero_add]⟩
      · cases hnil

/-- Firing a sequence from a marking of the right size is running through it. -/
theorem fireSequenceWithin_eq_ok_iff (h : m.size = net.placeCount) :
    net.fireSequenceWithin cap m (ts.map .number) = .ok m' ↔ net.incidence.Run cap m ts m' := by
  induction ts generalizing m with
  | nil =>
    constructor
    · intro h'
      obtain rfl : m = m' := Except.ok.inj h'
      exact .nil m
    · rintro ⟨⟩
      rfl
  | cons t ts ih =>
    rw [List.map_cons, fireSequenceWithin_cons_eq_ok_iff]
    simp only [fireWithin_eq_ok_iff, h, true_and]
    constructor
    · rintro ⟨m₁, hstep, hrest⟩
      exact .cons hstep ((ih (hstep.size_eq.trans h)).1 hrest)
    · intro hrun
      cases hrun with
      | cons step rest => exact ⟨_, step, (ih (step.size_eq.trans h)).2 rest⟩

/-- A step of the unbounded game is taken under a capacity too, or it overflows a place. -/
theorem fireWithin_eq_or_overflow (cap : Capacity) (hm : m.size = net.placeCount)
    (h : net.incidence.Step none m t m') : net.fireWithin cap m (.number t) = .ok m' ∨
      ∃ v p, net.fireWithin cap m (.number t) = .error (.tokenOverflow v p) := by
  obtain ⟨a, ha, hfire⟩ := h
  rcases Arcs.fire_eq_or_overflow cap hfire with hok | ⟨p, hover⟩
  · exact .inl (fireWithin_eq_ok_iff.2 ⟨hm, a, ha, hok⟩)
  · obtain ⟨ht, rfl⟩ := arcs_get?_eq_some_iff.1 ha
    refine .inr ⟨net.transitionName t, net.placeName p, ?_⟩
    rw [fireWithin_eq_mapError hm (resolve_number_eq_ok_iff.2 ⟨ht, rfl⟩), hover]
    rfl

/-- A run of the unbounded game is gone under a capacity too, or one of its steps overflows a place. -/
theorem fireSequenceWithin_eq_or_overflow (cap : Capacity) (hm : m.size = net.placeCount)
    (h : net.incidence.Run none m ts m') :
    net.fireSequenceWithin cap m (ts.map .number) = .ok m' ∨ ∃ i v p,
      net.fireSequenceWithin cap m (ts.map .number) = .error (.inSequence i (.tokenOverflow v p)) := by
  suffices hfrom : ∀ position, net.fireSequenceFrom cap position m (ts.map .number) = .ok m' ∨
      ∃ i v p, net.fireSequenceFrom cap position m (ts.map .number) =
        .error (.inSequence i (.tokenOverflow v p)) from hfrom 0
  induction h with
  | nil m =>
    intro position
    exact .inl rfl
  | @cons m m₁ m' t ts step rest ih =>
    intro position
    rw [List.map_cons, fireSequenceFrom]
    rcases fireWithin_eq_or_overflow cap hm step with hok | ⟨v, p, hover⟩
    · rw [hok]
      exact ih (step.size_eq.trans hm) (position + 1)
    · rw [hover]
      exact .inr ⟨position, v, p, rfl⟩

theorem placeIds_getElem? {p : PlaceId} (h : p.index < net.placeCount) :
    net.placeIds[p.index]? = some (net.placeName p) := by
  have hlength : net.placeIds.length = net.placeCount := List.length_map _
  unfold placeName
  rw [List.getElem?_eq_getElem (hlength.symm ▸ h), Option.getD_some]

theorem size_initialMarking (net : Net) : net.initialMarking.size = net.placeCount := by
  unfold initialMarking Marking.ofCounts Marking.size placeCount
  rw [List.length_map, List.length_map]

theorem hasOmega_initialMarking (net : Net) : net.initialMarking.hasOmega = false :=
  Marking.hasOmega_ofCounts _

/-- Firing `ts` from the initial marking leads to `m`, where the places hold any number of tokens. -/
def Reaches (net : Net) (ts : List TransitionId) (m : Marking) : Prop :=
  net.fireSequenceWithin none net.initialMarking (ts.map .number) = .ok m

/-- The markings that some sequence leads to. -/
def reachable (net : Net) : Set Marking := {m | ∃ ts, net.Reaches ts m}

theorem reaches_iff : net.Reaches ts m ↔ net.incidence.Run none net.initialMarking ts m :=
  fireSequenceWithin_eq_ok_iff net.size_initialMarking

theorem mem_reachable_of_step (hm : m ∈ net.reachable) (h : net.incidence.Step cap m t m') :
    m' ∈ net.reachable := by
  obtain ⟨ts, hts⟩ := hm
  have hrun := Incidence.Run.concat_iff.2 ⟨m, reaches_iff.1 hts, h.unlimited⟩
  exact ⟨ts ++ [t], reaches_iff.2 hrun⟩

theorem size_of_mem_reachable (h : m ∈ net.reachable) : m.size = net.placeCount := by
  obtain ⟨ts, hts⟩ := h
  exact (reaches_iff.1 hts).size_eq.trans net.size_initialMarking

/-- No place of a reachable marking holds `ω`. -/
theorem exists_count_of_mem_reachable (h : m ∈ net.reachable) (p : PlaceId) :
    ∃ c, m.count p = .finite c := by
  obtain ⟨ts, hts⟩ := h
  have homega := (reaches_iff.1 hts).hasOmega_eq.trans net.hasOmega_initialMarking
  exact Marking.hasOmega_eq_false_iff.1 homega p

end Net

end PetriNets
