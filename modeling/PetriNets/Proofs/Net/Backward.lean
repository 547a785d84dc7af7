import PetriNets.Proofs.Net.Firing

/-!
# Firing backwards

A transition that has led from one marking to another can be undone there, and undoing it gives back
the marking it came from; where it can be undone, it can be fired again. Neither direction starves or
overflows where the other one does not (`Arcs.fire_eq_ok_iff_fire_reverse`), as long as no count of
either marking exceeds the capacity. For sequences the transition that was fired last is undone first
(`undoSequenceWithin_cons_eq_ok_iff`), and the markings in between stay within the capacity both ways.
-/

namespace PetriNets

namespace Net

/-- Undoes the transitions of a sequence one by one, the last one first. -/
def undoSequenceWithin (cap : Capacity) (net : Net) (m : Marking) (ts : List TransitionRef) :
    Except FireError Marking :=
  ts.reverse.foldlM (net.reverseFireWithin cap) m

/-- Undoes a sequence; the counts are words. -/
def undoSequence (net : Net) (m : Marking) (ts : List TransitionRef) : Except FireError Marking :=
  net.undoSequenceWithin .word m ts

variable {net : Net} {cap : Capacity} {m m' : Marking} {r : TransitionRef} {rs : List TransitionRef}

/-! ## One transition -/

theorem reverseFireWithin_eq_ok_iff : net.reverseFireWithin cap m r = .ok m' ↔
    m.size = net.placeCount ∧ ∃ t, net.resolve r = .ok t ∧
      ∃ a, net.incidence.arcs.get? t = some a ∧ a.reverse.fire cap m = .ok m' := by
  unfold reverseFireWithin
  simp only [bind_eq_ok_iff, mapError_eq_ok_iff, checkMarking_eq_ok_iff, arcs_get?_eq_some_iff]
  constructor
  · rintro ⟨_, hm, t, ht, hfire⟩
    exact ⟨hm, t, ht, _, ⟨index_lt_of_resolve ht, rfl⟩, hfire⟩
  · rintro ⟨hm, t, ht, _, ⟨-, rfl⟩, hfire⟩
    exact ⟨(), hm, t, ht, hfire⟩

theorem fireWithin_eq_ok_iff_reverseFireWithin (hm : m.Within cap) (hm' : m'.Within cap) :
    net.fireWithin cap m r = .ok m' ↔ net.reverseFireWithin cap m' r = .ok m := by
  have hinverse : ∀ {t a}, net.incidence.arcs.get? t = some a → m.size = net.placeCount →
      (a.fire cap m = .ok m' ↔ a.reverse.fire cap m' = .ok m) := by
    intro t a ha hsize
    obtain ⟨-, rfl⟩ := arcs_get?_eq_some_iff.1 ha
    exact Arcs.fire_eq_ok_iff_fire_reverse (hsize ▸ net.inRange_arcsNamed _) hm hm'
  rw [fireWithin_eq_ok_iff_resolve, reverseFireWithin_eq_ok_iff]
  constructor
  · rintro ⟨hsize, t, ht, a, ha, hfire⟩
    exact ⟨(Arcs.size_of_fire hfire).trans hsize, t, ht, a, ha, (hinverse ha hsize).1 hfire⟩
  · rintro ⟨hsize', t, ht, a, ha, hfire⟩
    have hsize : m.size = net.placeCount := (Arcs.size_of_fire hfire).trans hsize'
    exact ⟨hsize, t, ht, a, ha, (hinverse ha hsize).2 hfire⟩

theorem within_of_fireWithin (hm : m.Within cap) (h : net.fireWithin cap m r = .ok m') :
    m'.Within cap := by
  obtain ⟨-, _, -, _, -, hfire⟩ := fireWithin_eq_ok_iff_resolve.1 h
  exact Arcs.within_of_fire hm hfire

theorem within_of_reverseFireWithin (hm : m.Within cap)
    (h : net.reverseFireWithin cap m r = .ok m') : m'.Within cap := by
  obtain ⟨-, _, -, _, -, hfire⟩ := reverseFireWithin_eq_ok_iff.1 h
  exact Arcs.within_of_fire hm hfire

/-! ## Sequences -/

theorem undoSequenceWithin_cons_eq_ok_iff : net.undoSequenceWithin cap m' (r :: rs) = .ok m ↔
    ∃ l, net.undoSequenceWithin cap m' rs = .ok l ∧ net.reverseFireWithin cap l r = .ok m := by
  unfold undoSequenceWithin
  rw [List.reverse_cons, List.foldlM_append, bind_eq_ok_iff]
  refine exists_congr fun l => and_congr_right fun _ => ?_
  rw [List.foldlM_cons, bind_eq_ok_iff]
  constructor
  · rintro ⟨_, hlast, hnil⟩
    exact Except.ok.inj hnil ▸ hlast
  · exact fun hlast => ⟨m, hlast, rfl⟩

theorem within_of_undoSequenceWithin (hm' : m'.Within cap)
    (h : net.undoSequenceWithin cap m' rs = .ok m) : m.Within cap := by
  induction rs generalizing m with
  | nil => exact Except.ok.inj h ▸ hm'
  | cons r rs ih =>
    obtain ⟨l, hl, hlast⟩ := undoSequenceWithin_cons_eq_ok_iff.1 h
    exact within_of_reverseFireWithin (ih hl) hlast

theorem fireSequenceWithin_eq_ok_iff_undoSequenceWithin (hm : m.Within cap) (hm' : m'.Within cap) :
    net.fireSequenceWithin cap m rs = .ok m' ↔ net.undoSequenceWithin cap m' rs = .ok m := by
  induction rs generalizing m with
  | nil =>
    constructor
    · exact fun h => congrArg Except.ok (Except.ok.inj h).symm
    · exact fun h => congrArg Except.ok (Except.ok.inj h).symm
  | cons r rs ih =>
    rw [fireSequenceWithin_cons_eq_ok_iff, undoSequenceWithin_cons_eq_ok_iff]
    -- the marking after the first transition is within the capacity, whichever way it is come to
    constructor
    · rintro ⟨l, hfirst, hrest⟩
      have hl := within_of_fireWithin hm hfirst
      exact ⟨l, (ih hl).1 hrest, (fireWithin_eq_ok_iff_reverseFireWithin hm hl).1 hfirst⟩
    · rintro ⟨l, hrest, hfirst⟩
      have hl := within_of_undoSequenceWithin hm' hrest
      exact ⟨l, (fireWithin_eq_ok_iff_reverseFireWithin hm hl).2 hfirst, (ih hl).2 hrest⟩

/-- Firing backwards is the inverse of firing. A transition leads from one marking to another if and
only if undoing it leads back, and so does a sequence whose transitions are undone one by one, the last
one first. The counts are any that fit into words; any place may hold `ω`. -/
theorem fire_eq_ok_iff_reverseFire (hm : m.Within .word) (hm' : m'.Within .word) :
    (∀ t, net.fire m t = .ok m' ↔ net.reverseFire m' t = .ok m) ∧
      ∀ ts, net.fireSequence m ts = .ok m' ↔ net.undoSequence m' ts = .ok m :=
  ⟨fun _ => fireWithin_eq_ok_iff_reverseFireWithin hm hm',
    fun _ => fireSequenceWithin_eq_ok_iff_undoSequenceWithin hm hm'⟩

/-- A lock between a sea and a basin. To flood it takes both of its keepers, of whom one stays; to drain
it takes one unit of water and brings them back. -/
def lockNet : Net := .ofScript "lock" [.createPlace "keepers", .createPlace "basin",
  .createPlace "sea", .createTransition "flood", .createTransition "drain",
  .createFlow "keepers" "flood" 2, .createFlow "flood" "keepers" 1, .createFlow "sea" "flood" 3,
  .createFlow "flood" "basin" 3, .createFlow "basin" "drain" 1, .createFlow "drain" "keepers" 2]

/-- The basin is filled as far as a word can count, and the sea is never exhausted. -/
theorem undo_lockNet :
    lockNet.fireSequence ⟨[.finite 2, .finite (maxWord - 3), .omega]⟩
        [.name "flood", .number ⟨1⟩] = .ok ⟨[.finite 3, .finite (maxWord - 1), .omega]⟩ ∧
      lockNet.undoSequence ⟨[.finite 3, .finite (maxWord - 1), .omega]⟩
        [.name "flood", .number ⟨1⟩] = .ok ⟨[.finite 2, .finite (maxWord - 3), .omega]⟩ := by
  have hm : Marking.Within .word ⟨[.finite 2, .finite (maxWord - 3), .omega]⟩ := by
    rintro ⟨_ | _ | _ | i⟩ <;> rfl
  have hm' : Marking.Within .word ⟨[.finite 3, .finite (maxWord - 1), .omega]⟩ := by
    rintro ⟨_ | _ | _ | i⟩ <;> rfl
  have hfire : lockNet.fireSequence ⟨[.finite 2, .finite (maxWord - 3), .omega]⟩
      [.name "flood", .number ⟨1⟩] = .ok ⟨[.finite 3, .finite (maxWord - 1), .omega]⟩ := by decide
  exact ⟨hfire, ((fire_eq_ok_iff_reverseFire hm hm').2 _).1 hfire⟩

end Net

end PetriNets
