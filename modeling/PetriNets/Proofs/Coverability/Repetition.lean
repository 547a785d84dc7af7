import Mathlib.Order.Bounds.Basic
import PetriNets.Proofs.Coverability.Pumping
import PetriNets.Proofs.Coverability.Witnesses
import PetriNets.Proofs.Net.InStep

/-!
# Turning the cycle of a witness

A run that leads from a marking to one with more tokens can be gone again from there, since tokens that
are added to its first marking stay to the last one; so `r` turns of it add `r` times what one turn adds,
on every place (`Incidence.Run.replicate`). The cycle of a witness is such a run, and the number of turns
that the witness asks for is the least one that leaves more than the bound on its place
(`Witness.isLeast_turnsExceeding`).
-/

namespace PetriNets

/-- What one marking holds more than another one makes up for the difference. -/
theorem Marking.plus_surplus {m n : Marking} (hle : m ≤ n) (hm : m.hasOmega = false)
    (hn : n.hasOmega = false) : m.plus (m.surplus n) = n := by
  have hsize : m.size = n.size := size_eq_of_le hle
  refine ext_count ((size_plus _).trans hsize) fun p hp => ?_
  rw [size_plus] at hp
  obtain ⟨a, ha⟩ := hasOmega_eq_false_iff.1 hm p
  obtain ⟨b, hb⟩ := hasOmega_eq_false_iff.1 hn p
  have hab : a ≤ b := by
    have hcount := count_le_of_le hle p
    rwa [ha, hb, Token.finite_le_finite] at hcount
  rw [count_plus hp, surplus, ha, hb]
  show Token.finite (a + (b - a)) = _
  rw [Nat.add_sub_cancel' hab]

/-- A run that adds tokens can be gone again and again, and adds as many each time. -/
theorem Incidence.Run.replicate {inc : Incidence} {m : Marking} {ts : List TransitionId}
    {d : PlaceId → Nat} (h : inc.Run none m ts (m.plus d)) (r : Nat) :
    inc.Run none m (List.replicate r ts).flatten (m.plus fun p => r * d p) := by
  induction r with
  | zero =>
    simp only [Nat.zero_mul, Marking.plus_zero]
    exact .nil m
  | succ r ih =>
    rw [List.replicate_succ', List.flatten_append, List.flatten_singleton]
    refine ih.append ?_
    have hturn := h.plus fun p => r * d p
    rw [Marking.plus_plus] at hturn
    simp only [Nat.succ_mul, Nat.add_comm (r * _)]
    exact hturn

namespace Witness

variable {w : Witness} {p : Problem} {bound c : Nat}

/-- A witness asks for the least number of turns that leave more than the bound. -/
theorem isLeast_turnsExceeding (hgain : 0 < w.gain) (hc : w.before.count w.place = .finite c) :
    IsLeast {r | bound < c + r * w.gain} (w.turnsExceeding bound) := by
  have hstart : (w.before.count w.place).word = c := by
    rw [hc]
    rfl
  unfold turnsExceeding
  rw [hstart, Nat.max_eq_left hgain]
  dsimp only
  split
  · next hlt =>
    refine ⟨?_, fun r _ => Nat.zero_le r⟩
    show bound < c + 0 * w.gain
    omega
  · next hge =>
    constructor
    · have hlt := Nat.lt_mul_div_succ (bound - c) hgain
      rw [Nat.mul_comm] at hlt
      show bound < c + ((bound - c) / w.gain + 1) * w.gain
      omega
    · intro r hr
      have hlt : bound - c < r * w.gain := by
        have hmore : bound < c + r * w.gain := hr
        omega
      exact (Nat.div_lt_iff_lt_mul hgain).2 hlt

/-- The number of turns is no greater than the number of tokens that are wanted. -/
theorem turnsExceeding_le (w : Witness) (bound : Nat) : w.turnsExceeding bound ≤ bound + 1 := by
  unfold turnsExceeding
  dsimp only
  split
  · exact Nat.zero_le _
  · have hdiv := Nat.div_le_self (bound - (w.before.count w.place).word) (max w.gain 1)
    omega

/-- After any number of turns the place holds as many times the gain more than before. -/
theorem exists_run_turns (h : p.Replays w) (hc : w.before.count w.place = .finite c) (r : Nat) :
    ∃ m, p.incidence.Run none p.initial (w.lead ++ (List.replicate r w.cycle).flatten) m ∧
      m.count w.place = .finite (c + r * w.gain) := by
  have hcycle := h.cycle.unlimited
  rw [← Marking.plus_surplus h.covers.le h.finite_before h.finite_after] at hcycle
  refine ⟨_, h.lead.unlimited.append (hcycle.replicate r), ?_⟩
  obtain ⟨-, c', hbefore, hafter⟩ := CoverabilityGraph.exists_gain h
  have hplace : w.place.index < w.before.size := by
    rw [Marking.size_eq_of_le h.covers.le]
    exact Marking.index_lt_of_count_lt h.grows
  rw [Marking.count_plus hplace, Marking.surplus, hafter, hbefore]
  obtain rfl := Token.finite.inj (hbefore.symm.trans hc)
  show Token.finite (c' + r * (c' + w.gain - c')) = _
  rw [Nat.add_sub_cancel_left]

end Witness

namespace CoverabilityGraph

variable {net : Net} {rounds : Nat} {config : AnalysisConfig} {g : CoverabilityGraph} {w : Witness}
  {bound : Nat}

/-- A witness exceeds every bound below the greatest word, with as few turns of its cycle as possible:
without a capacity the sequence can be fired and leaves just as many tokens on the place as the turns
gain, and where counts are kept in words it does the same or overflows a place; it is never refused for
want of tokens. -/
theorem sequenceExceeding_pumps (h : buildWithin rounds config net = .ok g) (hw : w ∈ g.witnesses)
    (hbound : bound < maxWord) : ∃ c r, w.before.count w.place = .finite c ∧
      IsLeast {r | bound < c + r * w.gain} r ∧ r ≤ maxWord ∧
      w.sequenceExceeding bound = w.lead ++ (List.replicate r w.cycle).flatten ∧
      ∃ m, net.Reaches (w.sequenceExceeding bound) m ∧
        m.count w.place = .finite (c + r * w.gain) ∧
        (net.fireSequence net.initialMarking ((w.sequenceExceeding bound).map .number) = .ok m ∨
          ∃ i t p, net.fireSequence net.initialMarking ((w.sequenceExceeding bound).map .number) =
            .error (.inSequence i (.tokenOverflow t p))) := by
  obtain ⟨x, rfl, hx⟩ := exists_witnessed h
  have hreplays : (net.problem .word config).Replays w := hx.replays w hw
  obtain ⟨hgain, c, hc, -⟩ := exists_gain hreplays
  obtain ⟨m, hrun, hm⟩ := Witness.exists_run_turns hreplays hc (w.turnsExceeding bound)
  refine ⟨c, w.turnsExceeding bound, hc, Witness.isLeast_turnsExceeding hgain hc, ?_, rfl, m,
    Net.reaches_iff.2 hrun, hm, ?_⟩
  · have hle := w.turnsExceeding_le bound
    omega
  · exact Net.fireSequenceWithin_eq_or_overflow .word net.size_initialMarking hrun

/-- A cistern with room for three more tokens, and a pump that fills it by two at a time. -/
def cisternNet : Net := .ofScript "cistern" [.addPlace ⟨"cistern", maxWord - 3, ∅⟩,
  .createTransition "fill", .createFlow "fill" "cistern" 2]

/-- The second turn exceeds the greatest word but one, and with it what the cistern can count. -/
theorem sequenceExceeding_pumps_cisternNet : ∃ g w, buildWithin 3 default cisternNet = .ok g ∧
    g.witnesses = [w] ∧ w.sequenceExceeding (maxWord - 1) = [⟨0⟩, ⟨0⟩] ∧
    (∃ m, cisternNet.Reaches [⟨0⟩, ⟨0⟩] m ∧ m.count w.place = .finite (maxWord + 1)) ∧
    ∃ i t p, cisternNet.fireSequence cisternNet.initialMarking [.number ⟨0⟩, .number ⟨0⟩] =
      .error (.inSequence i (.tokenOverflow t p)) := by
  have hcistern : ∃ g w, buildWithin 3 default cisternNet = .ok g ∧ g.witnesses = [w] ∧
      w.before.count w.place = .finite (maxWord - 3) ∧ w.gain = 2 ∧ w.lead = [] ∧ w.cycle = [⟨0⟩] :=
    ⟨_, _, rfl, rfl, rfl, rfl, rfl, rfl⟩
  obtain ⟨g, w, hg, hw, hbefore, hgain, hlead, hcycle⟩ := hcistern
  have hmem : w ∈ g.witnesses := by simp [hw]
  obtain ⟨c, r, hc, hr, -, hsequence, m, hreaches, hm, hfire⟩ :=
    sequenceExceeding_pumps hg hmem (show maxWord - 1 < maxWord by decide)
  obtain rfl := Token.finite.inj (hbefore.symm.trans hc)
  have hmax : maxWord = 18446744073709551615 := rfl
  rw [hgain] at hr hm
  obtain rfl : r = 2 := by
    have hmore : maxWord - 1 < maxWord - 3 + r * 2 := hr.1
    have hleast : r ≤ 2 := hr.2 (show maxWord - 1 < maxWord - 3 + 2 * 2 by omega)
    omega
  rw [hlead, hcycle] at hsequence
  have htwice : w.sequenceExceeding (maxWord - 1) = [⟨0⟩, ⟨0⟩] := hsequence
  rw [htwice] at hreaches hfire
  refine ⟨g, w, hg, hw, htwice, ⟨m, hreaches, hm⟩, ?_⟩
  rcases hfire with hok | hover
  · cases hok
  · exact hover

end CoverabilityGraph

end PetriNets
