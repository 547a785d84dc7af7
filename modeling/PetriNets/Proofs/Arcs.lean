import Mathlib.Data.List.Find
import PetriNets.Arcs
import PetriNets.Proofs.Marking

/-!
# The firing rule by places

A row is taken from a marking if every place covers the sum of the weights that the row puts on it,
and what is left and what is given is that sum less and more (`take_eq_ok_iff`, `give_eq_ok_iff`).
So a step of the unbounded game is told by the two weights of each place (`fire_eq_ok_iff`), more
tokens never hinder it, and it leaves alone what is added to a marking (`fire_plus`).
-/

namespace PetriNets

namespace Row

variable {row : Row} {m m' : Marking} {p q : PlaceId} {w : Nat}

@[simp] theorem weight_nil : weight [] p = 0 := rfl

theorem weight_cons : weight ((q, w) :: row) p = (if p = q then w else 0) + weight row p := by
  unfold weight
  by_cases h : p = q
  · subst h
    simp
  · rw [if_neg h, List.filter_cons_of_neg (by simpa using Ne.symm h), Nat.zero_add]

theorem exists_weight_le (row : Row) : ∃ k, ∀ p, row.weight p ≤ k := by
  induction row with
  | nil => exact ⟨0, fun _ => Nat.le_refl 0⟩
  | cons arc row ih =>
    obtain ⟨q, w⟩ := arc
    obtain ⟨k, hk⟩ := ih
    refine ⟨w + k, fun p => ?_⟩
    rw [weight_cons]
    refine Nat.add_le_add ?_ (hk p)
    split
    · exact Nat.le_refl w
    · exact Nat.zero_le w

/-- Taking an arc's weight from its place, seen from every place. -/
theorem count_set_minus :
    (m.set q ((m.count q).minus w)).count p = (m.count p).minus (if p = q then w else 0) := by
  rw [Marking.count_set]
  · split
    · next hpq => rw [hpq]
    · rw [Token.minus_zero]
  · intro hle
    rw [Marking.count_eq_zero_of_le hle, Token.zero_minus]

/-- Giving an arc's weight to its place, seen from every place of the marking. -/
theorem count_set_plus (hp : p.index < m.size) :
    (m.set q ((m.count q).plus w)).count p = (m.count p).plus (if p = q then w else 0) := by
  by_cases hpq : p = q
  · subst hpq
    rw [Marking.count_set_self hp, if_pos rfl]
  · rw [Marking.count_set_of_ne (Ne.symm hpq), if_neg hpq, Token.plus_zero]

theorem take_eq_ok_iff :
    row.take m = .ok m' ↔ (∀ p, (m.count p).covers (row.weight p) = true) ∧
      m'.size = m.size ∧ ∀ p, m'.count p = (m.count p).minus (row.weight p) := by
  induction row generalizing m with
  | nil =>
    simp only [take, weight_nil, Token.covers_zero, Token.minus_zero, implies_true, true_and,
      Except.ok.injEq]
    constructor
    · rintro rfl
      exact ⟨rfl, fun _ => rfl⟩
    · rintro ⟨hs, hc⟩
      exact Marking.ext_count hs.symm fun p _ => (hc p).symm
  | cons arc row ih =>
    obtain ⟨q, w⟩ := arc
    unfold take
    by_cases h : (m.count q).covers w = true
    · rw [Token.sub?_eq_some_iff.2 ⟨h, rfl⟩]
      dsimp only
      rw [ih]
      simp only [count_set_minus, weight_cons, Token.minus_minus, Marking.size_set]
      refine and_congr_left fun _ => forall_congr' fun p => ?_
      rw [Token.covers_add]
      refine (and_iff_right ?_).symm
      split
      · next hpq => rwa [hpq]
      · exact Token.covers_zero
    · rw [Token.sub?_eq_none_iff.2 ((Bool.not_eq_true _).mp h)]
      constructor
      · exact nofun
      · rintro ⟨hcov, -⟩
        have hq := hcov q
        rw [weight_cons, if_pos rfl, Token.covers_add] at hq
        exact absurd hq.1 h

theorem exists_take (h : ∀ p, (m.count p).covers (row.weight p) = true) :
    ∃ l, row.take m = .ok l := by
  let l := Marking.tabulate m.size fun p => (m.count p).minus (row.weight p)
  refine ⟨l, take_eq_ok_iff.2 ⟨h, Marking.size_tabulate _ _, fun p => ?_⟩⟩
  by_cases hp : p.index < m.size
  · exact Marking.count_tabulate hp
  · have hle : m.size ≤ p.index := Nat.le_of_not_lt hp
    rw [Marking.count_eq_zero_of_le hle, Token.zero_minus]
    exact Marking.count_eq_zero_of_le (by rwa [Marking.size_tabulate])

/-- Whatever the capacity, a row that is given is added to each place. -/
theorem count_of_give {cap : Capacity} (h : row.give cap m = .ok m') :
    m'.size = m.size ∧ ∀ p : PlaceId, p.index < m.size →
      m'.count p = (m.count p).plus (row.weight p) := by
  induction row generalizing m with
  | nil =>
    obtain rfl : m = m' := Except.ok.inj h
    exact ⟨rfl, fun p _ => Token.plus_zero.symm⟩
  | cons arc row ih =>
    obtain ⟨q, w⟩ := arc
    unfold give at h
    cases hadd : (m.count q).add? cap w with
    | none => rw [hadd] at h; cases h
    | some t =>
      rw [hadd, Token.eq_plus_of_add? hadd] at h
      obtain ⟨hs, hc⟩ := ih h
      rw [Marking.size_set] at hs hc
      refine ⟨hs, fun p hp => ?_⟩
      rw [hc p hp, count_set_plus hp, Token.plus_plus, weight_cons]

/-- What a place holds afterwards is within its capacity, unless the row left it as it was. -/
theorem within_of_give {cap : Capacity} (h : row.give cap m = .ok m') (p : PlaceId) :
    (m'.count p).within cap = true ∨ m'.count p = m.count p := by
  induction row generalizing m with
  | nil =>
    obtain rfl : m = m' := Except.ok.inj h
    exact .inr rfl
  | cons arc row ih =>
    obtain ⟨q, w⟩ := arc
    unfold give at h
    cases hadd : (m.count q).add? cap w with
    | none =>
      rw [hadd] at h
      cases h
    | some t =>
      rw [hadd] at h
      obtain ⟨hwithin, rfl⟩ := Token.add?_eq_some_iff.1 hadd
      refine (ih h).elim .inl fun hsame => ?_
      rw [hsame]
      by_cases hp : p.index < m.size
      · rw [count_set_plus hp]
        split
        · next hpq =>
          rw [hpq]
          exact .inl hwithin
        · rw [Token.plus_zero]
          exact .inr rfl
      · have hle : m.size ≤ p.index := Nat.le_of_not_lt hp
        rw [Marking.count_eq_zero_of_le hle, Marking.count_eq_zero_of_le (by rwa [Marking.size_set])]
        exact .inr rfl

theorem exists_give (row : Row) (m : Marking) : ∃ m', row.give none m = .ok m' := by
  induction row generalizing m with
  | nil => exact ⟨m, rfl⟩
  | cons arc row ih =>
    obtain ⟨q, w⟩ := arc
    unfold give
    rw [Token.add?_none_eq_plus]
    exact ih _

/-- Giving fails by overflow alone. -/
theorem exists_overflow_of_give {cap : Capacity} {fault : StepFault}
    (h : row.give cap m = .error fault) : ∃ p, fault = .overflow p := by
  induction row generalizing m with
  | nil => cases h
  | cons arc row ih =>
    obtain ⟨q, w⟩ := arc
    unfold give at h
    cases hadd : (m.count q).add? cap w with
    | none =>
      rw [hadd] at h
      exact ⟨q, (Except.error.inj h).symm⟩
    | some t =>
      rw [hadd] at h
      exact ih h

theorem give_eq_ok_iff :
    row.give none m = .ok m' ↔ m'.size = m.size ∧ ∀ p : PlaceId, p.index < m.size →
      m'.count p = (m.count p).plus (row.weight p) := by
  refine ⟨count_of_give, fun ⟨hs, hc⟩ => ?_⟩
  obtain ⟨m'', h⟩ := exists_give row m
  obtain ⟨hs', hc'⟩ := count_of_give h
  rw [h, Except.ok.injEq]
  refine Marking.ext_count (hs'.trans hs.symm) fun p hp => ?_
  rw [hs'] at hp
  rw [hc p hp, hc' p hp]

/-- What can be given where there is no capacity can be given under one that the outcome stays
within. -/
theorem give_of_within {cap : Capacity} (hrow : ∀ arc ∈ row, arc.1.index < m.size)
    (h : row.give none m = .ok m') (hwithin : m'.Within cap) : row.give cap m = .ok m' := by
  induction row generalizing m with
  | nil => exact h
  | cons arc row ih =>
    obtain ⟨q, w⟩ := arc
    obtain ⟨hq, hrest⟩ := List.forall_mem_cons.1 hrow
    unfold give at h ⊢
    rw [Token.add?_none_eq_plus] at h
    -- the arcs that come later take nothing off the place again
    have hcount := (count_of_give h).2 q (by rwa [Marking.size_set])
    rw [Marking.count_set_self hq] at hcount
    have hplace := hwithin q
    rw [hcount] at hplace
    rw [Token.add?_eq_some_iff.2 ⟨Token.within_of_within_plus hplace, rfl⟩]
    exact ih (fun e he => by rw [Marking.size_set]; exact hrest e he) h

/-- Each arc asks for no more than the row does. -/
theorem isCovered_of_covers_weight (h : ∀ p, (m.count p).covers (row.weight p) = true) :
    row.isCovered m = true := by
  induction row with
  | nil => rfl
  | cons arc row ih =>
    obtain ⟨q, w⟩ := arc
    unfold isCovered
    rw [List.all_cons, Bool.and_eq_true]
    have hadd : ∀ p, (m.count p).covers (if p = q then w else 0) = true ∧
        (m.count p).covers (weight row p) = true := by
      intro p
      have hp := h p
      rw [weight_cons] at hp
      exact ⟨(Token.covers_add _).1 hp |>.1, (Token.covers_add _).1 (Nat.add_comm _ _ ▸ hp) |>.1⟩
    refine ⟨?_, ih fun p => (hadd p).2⟩
    have hq := (hadd q).1
    rwa [if_pos rfl] at hq

theorem weight_eq_zero_of_notMem (h : p ∉ row.map Prod.fst) : row.weight p = 0 := by
  induction row with
  | nil => rfl
  | cons arc row ih =>
    obtain ⟨q, w⟩ := arc
    rw [List.map_cons, List.mem_cons, not_or] at h
    rw [weight_cons, if_neg h.1, ih h.2]

theorem weight_eq_of_mem (hnodup : (row.map Prod.fst).Nodup) (h : (p, w) ∈ row) :
    row.weight p = w := by
  induction row with
  | nil => cases h
  | cons first row ih =>
    obtain ⟨q, v⟩ := first
    obtain ⟨hq, hrow⟩ := List.nodup_cons.1 hnodup
    rw [weight_cons]
    rcases List.mem_cons.1 h with hfirst | hrest
    · obtain ⟨rfl, rfl⟩ := Prod.mk.inj hfirst
      rw [if_pos rfl, weight_eq_zero_of_notMem hq, Nat.add_zero]
    · have hpq : p ≠ q := by
        rintro rfl
        exact hq (List.mem_map.2 ⟨_, hrest, rfl⟩)
      rw [if_neg hpq, ih hrow hrest, Nat.zero_add]

/-- A row puts nothing on a place that comes after those of its arcs. -/
theorem weight_eq_zero_of_le {n : Nat} (hrow : ∀ arc ∈ row, arc.1.index < n) (hp : n ≤ p.index) :
    row.weight p = 0 := by
  refine weight_eq_zero_of_notMem fun hmem => ?_
  obtain ⟨arc, harc, rfl⟩ := List.mem_map.1 hmem
  exact absurd (hrow arc harc) (Nat.not_lt_of_le hp)

/-- Where each place occurs once, the arcs ask for as much as the row does. -/
theorem covers_weight_of_isCovered (hnodup : (row.map Prod.fst).Nodup)
    (h : row.isCovered m = true) (p : PlaceId) : (m.count p).covers (row.weight p) = true := by
  induction row with
  | nil => exact Token.covers_zero
  | cons arc row ih =>
    obtain ⟨q, w⟩ := arc
    obtain ⟨hq, hrow⟩ := List.nodup_cons.1 hnodup
    unfold isCovered at h
    rw [List.all_cons, Bool.and_eq_true] at h
    rw [weight_cons]
    by_cases hpq : p = q
    · subst hpq
      rw [if_pos rfl, weight_eq_zero_of_notMem hq]
      exact h.1
    · rw [if_neg hpq, Nat.zero_add]
      exact ih hrow h.2

/-! ### The first fault

Where each place occurs once in a row, an arc finds what was there before its row, so the first arc
that cannot be done is told by the marking alone. -/

/-- The place has too little for the arc to take. -/
def starves (m : Marking) (arc : PlaceId × Nat) : Bool := !(m.count arc.1).covers arc.2

/-- The place cannot hold what the arc gives. -/
def overflows (cap : Capacity) (m : Marking) (arc : PlaceId × Nat) : Bool :=
  !((m.count arc.1).plus arc.2).within cap

theorem isCovered_iff : row.isCovered m = true ↔ row.find? (starves m) = none := by
  unfold isCovered starves
  simp [List.find?_eq_none]

/-- Writing a place that does not occur in the row changes no count that the row reads. -/
theorem count_set_of_notMem {arc : PlaceId × Nat} {t : Token} (hq : q ∉ row.map Prod.fst)
    (harc : arc ∈ row) : (m.set q t).count arc.1 = m.count arc.1 := by
  refine Marking.count_set_of_ne ?_ t
  rintro rfl
  exact hq (List.mem_map_of_mem harc)

theorem take_eq_error {arc : PlaceId × Nat} (hnodup : (row.map Prod.fst).Nodup)
    (h : row.find? (starves m) = some arc) :
    row.take m = .error (.starved arc.1 arc.2 (m.count arc.1)) := by
  induction row generalizing m with
  | nil => cases h
  | cons first row ih =>
    obtain ⟨q, w⟩ := first
    obtain ⟨hq, hrow⟩ := List.nodup_cons.1 hnodup
    unfold take
    cases hcov : (m.count q).covers w with
    | false =>
      have hstarves : starves m (q, w) = true := by simp [starves, hcov]
      rw [List.find?_cons_of_pos hstarves] at h
      obtain rfl := Option.some.inj h
      rw [Token.sub?_eq_none_iff.2 hcov]
    | true =>
      have hstarves : ¬ starves m (q, w) = true := by simp [starves, hcov]
      rw [List.find?_cons_of_neg hstarves] at h
      rw [Token.sub?_eq_some_iff.2 ⟨hcov, rfl⟩]
      have hsame : ∀ e ∈ row, starves (m.set q ((m.count q).minus w)) e = starves m e := by
        intro e he
        unfold starves
        rw [count_set_of_notMem hq he]
      rw [← List.find?_congr hsame] at h
      rw [← count_set_of_notMem hq (List.mem_of_find?_eq_some h)]
      exact ih hrow h

theorem give_eq_error {cap : Capacity} {arc : PlaceId × Nat} (hnodup : (row.map Prod.fst).Nodup)
    (h : row.find? (overflows cap m) = some arc) : row.give cap m = .error (.overflow arc.1) := by
  induction row generalizing m with
  | nil => cases h
  | cons first row ih =>
    obtain ⟨q, w⟩ := first
    obtain ⟨hq, hrow⟩ := List.nodup_cons.1 hnodup
    unfold give
    cases hwithin : ((m.count q).plus w).within cap with
    | false =>
      have hover : overflows cap m (q, w) = true := by simp [overflows, hwithin]
      rw [List.find?_cons_of_pos hover] at h
      obtain rfl := Option.some.inj h
      rw [Token.add?_eq_none_iff.2 hwithin]
    | true =>
      have hover : ¬ overflows cap m (q, w) = true := by simp [overflows, hwithin]
      rw [List.find?_cons_of_neg hover] at h
      rw [Token.add?_eq_some_iff.2 ⟨hwithin, rfl⟩]
      have hsame : ∀ e ∈ row,
          overflows cap (m.set q ((m.count q).plus w)) e = overflows cap m e := by
        intro e he
        unfold overflows
        rw [count_set_of_notMem hq he]
      rw [← List.find?_congr hsame] at h
      exact ih hrow h

theorem exists_give_within {cap : Capacity} (hnodup : (row.map Prod.fst).Nodup)
    (h : row.find? (overflows cap m) = none) : ∃ m', row.give cap m = .ok m' := by
  induction row generalizing m with
  | nil => exact ⟨m, rfl⟩
  | cons first row ih =>
    obtain ⟨q, w⟩ := first
    obtain ⟨hq, hrow⟩ := List.nodup_cons.1 hnodup
    rw [List.find?_eq_none] at h
    obtain ⟨hover, hrest⟩ := List.forall_mem_cons.1 h
    have hwithin : ((m.count q).plus w).within cap = true := by simpa [overflows] using hover
    unfold give
    rw [Token.add?_eq_some_iff.2 ⟨hwithin, rfl⟩]
    refine ih hrow (List.find?_eq_none.2 fun e he => ?_)
    unfold overflows
    rw [count_set_of_notMem hq he]
    exact hrest e he

theorem isCovered_of_le (h : m ≤ m') (hm : row.isCovered m = true) : row.isCovered m' = true := by
  unfold isCovered at hm ⊢
  rw [List.all_eq_true] at hm ⊢
  exact fun e he => Token.covers_of_le (Marking.count_le_of_le h e.1) (hm e he)

end Row

/-! ## Steps -/

namespace Arcs

variable {a : Arcs} {cap : Capacity} {m m' n : Marking}

theorem fire_eq_ok_cases :
    a.fire cap m = .ok m' ↔ ∃ l, a.pre.take m = .ok l ∧ a.post.give cap l = .ok m' := by
  unfold fire
  cases a.pre.take m with
  | error e => exact ⟨nofun, nofun⟩
  | ok l => exact ⟨fun h => ⟨l, rfl, h⟩, fun ⟨_, hl, h⟩ => Except.ok.inj hl ▸ h⟩

/-- A step of the unbounded game: every place covers what is taken, and holds so much less and what
is given more afterwards. -/
theorem fire_eq_ok_iff :
    a.fire none m = .ok m' ↔ (∀ p, (m.count p).covers (a.pre.weight p) = true) ∧
      m'.size = m.size ∧ ∀ p : PlaceId, p.index < m.size →
        m'.count p = ((m.count p).minus (a.pre.weight p)).plus (a.post.weight p) := by
  rw [fire_eq_ok_cases]
  constructor
  · rintro ⟨l, htake, hgive⟩
    obtain ⟨hcov, hs, hc⟩ := Row.take_eq_ok_iff.1 htake
    obtain ⟨hs', hc'⟩ := Row.give_eq_ok_iff.1 hgive
    refine ⟨hcov, hs'.trans hs, fun p hp => ?_⟩
    rw [hc' p (hs.symm ▸ hp), hc p]
  · rintro ⟨hcov, hs, hc⟩
    obtain ⟨l, htake⟩ := Row.exists_take hcov
    obtain ⟨-, hs', hc'⟩ := Row.take_eq_ok_iff.1 htake
    refine ⟨l, htake, Row.give_eq_ok_iff.2 ⟨hs.trans hs'.symm, fun p hp => ?_⟩⟩
    rw [hc p (hs' ▸ hp), hc' p]

/-- The capacity only hinders: what fires under one fires without it, and to the same marking. -/
theorem fire_none_of_fire (h : a.fire cap m = .ok m') : a.fire none m = .ok m' := by
  obtain ⟨l, htake, hgive⟩ := fire_eq_ok_cases.1 h
  exact fire_eq_ok_cases.2 ⟨l, htake, Row.give_eq_ok_iff.2 (Row.count_of_give hgive)⟩

/-- What fires without a capacity fires under one to the same marking, or it overflows a place. -/
theorem fire_eq_or_overflow (cap : Capacity) (h : a.fire none m = .ok m') :
    a.fire cap m = .ok m' ∨ ∃ p, a.fire cap m = .error (.overflow p) := by
  obtain ⟨l, htake, -⟩ := fire_eq_ok_cases.1 h
  cases hgive : a.post.give cap l with
  | ok m'' =>
    have hfire : a.fire cap m = .ok m'' := fire_eq_ok_cases.2 ⟨l, htake, hgive⟩
    obtain rfl := Except.ok.inj ((fire_none_of_fire hfire).symm.trans h)
    exact .inl hfire
  | error fault =>
    obtain ⟨p, rfl⟩ := Row.exists_overflow_of_give hgive
    refine .inr ⟨p, ?_⟩
    unfold fire
    rw [htake]
    exact hgive

theorem exists_fire (h : ∀ p, (m.count p).covers (a.pre.weight p) = true) :
    ∃ m', a.fire none m = .ok m' := by
  obtain ⟨l, htake⟩ := Row.exists_take h
  obtain ⟨m', hgive⟩ := Row.exists_give a.post l
  exact ⟨m', fire_eq_ok_cases.2 ⟨l, htake, hgive⟩⟩

/-- A transition that takes from each place by one arc at most can fire when it is enabled. -/
theorem exists_fire_of_isEnabled (hnodup : (a.pre.map Prod.fst).Nodup) (h : a.isEnabled m = true) :
    ∃ m', a.fire none m = .ok m' :=
  exists_fire (Row.covers_weight_of_isCovered hnodup h)

theorem size_of_fire (h : a.fire cap m = .ok m') : m'.size = m.size :=
  (fire_eq_ok_iff.1 (fire_none_of_fire h)).2.1

/-- Firing under a capacity leaves no more on a place than the capacity, or than there was. -/
theorem count_le_of_fire {limit bound c : Nat} {p : PlaceId} (h : a.fire (some limit) m = .ok m')
    (hlimit : limit ≤ bound) (hbound : ∀ c, m.count p = .finite c → c ≤ bound)
    (hc : m'.count p = .finite c) : c ≤ bound := by
  obtain ⟨l, htake, hgive⟩ := fire_eq_ok_cases.1 h
  rcases Row.within_of_give hgive p with hwithin | hsame
  · rw [hc] at hwithin
    exact (of_decide_eq_true hwithin : c ≤ limit).trans hlimit
  · rw [hc, (Row.take_eq_ok_iff.1 htake).2.2 p] at hsame
    cases hm : m.count p with
    | finite n =>
      rw [hm] at hsame
      have hn := hbound n hm
      have hcn : c = n - a.pre.weight p := Token.finite.inj hsame
      omega
    | omega =>
      rw [hm] at hsame
      cases hsame

theorem within_of_fire (hm : m.Within cap) (h : a.fire cap m = .ok m') : m'.Within cap := by
  intro p
  obtain ⟨l, htake, hgive⟩ := fire_eq_ok_cases.1 h
  rcases Row.within_of_give hgive p with hwithin | hsame
  · exact hwithin
  · rw [hsame, (Row.take_eq_ok_iff.1 htake).2.2 p]
    exact Token.within_minus (hm p)

theorem isEnabled_of_fire (h : a.fire cap m = .ok m') : a.isEnabled m = true :=
  Row.isCovered_of_covers_weight (fire_eq_ok_iff.1 (fire_none_of_fire h)).1

/-- Whether giving the arc, once the whole first row has been taken, overflows its place. -/
def spills (a : Arcs) (cap : Capacity) (m : Marking) (arc : PlaceId × Nat) : Bool :=
  !(((m.count arc.1).minus (a.pre.weight arc.1)).plus arc.2).within cap

section FirstFault

variable {arc : PlaceId × Nat} (hpre : (a.pre.map Prod.fst).Nodup)
  (hpost : (a.post.map Prod.fst).Nodup)
include hpre

theorem fire_eq_starved (h : a.pre.find? (Row.starves m) = some arc) :
    a.fire cap m = .error (.starved arc.1 arc.2 (m.count arc.1)) := by
  unfold fire
  rw [Row.take_eq_error hpre h]
  rfl

/-- What is left when the first row has been taken. -/
theorem exists_left (cap : Capacity) (h : a.pre.find? (Row.starves m) = none) : ∃ l,
    a.fire cap m = a.post.give cap l ∧ ∀ arc, Row.overflows cap l arc = a.spills cap m arc := by
  obtain ⟨l, hl⟩ := Row.exists_take (Row.covers_weight_of_isCovered hpre (Row.isCovered_iff.2 h))
  refine ⟨l, ?_, fun arc => ?_⟩
  · unfold fire
    rw [hl]
    rfl
  · unfold Row.overflows spills
    rw [(Row.take_eq_ok_iff.1 hl).2.2]

include hpost

theorem fire_eq_overflow (h : a.pre.find? (Row.starves m) = none)
    (hspill : a.post.find? (a.spills cap m) = some arc) :
    a.fire cap m = .error (.overflow arc.1) := by
  obtain ⟨l, hfire, hover⟩ := exists_left hpre cap h
  rw [hfire]
  refine Row.give_eq_error hpost ?_
  rw [← hspill]
  exact List.find?_congr fun e _ => hover e

theorem exists_fire_within (h : a.pre.find? (Row.starves m) = none)
    (hspill : a.post.find? (a.spills cap m) = none) : ∃ m', a.fire cap m = .ok m' := by
  obtain ⟨l, hfire, hover⟩ := exists_left hpre cap h
  rw [hfire]
  refine Row.exists_give_within hpost ?_
  rw [← hspill]
  exact List.find?_congr fun e _ => hover e

/-- What a step that fails fails at. -/
theorem fire_eq_error_cases {fault : StepFault} (h : a.fire cap m = .error fault) :
    (∃ arc ∈ a.pre, (m.count arc.1).covers arc.2 = false ∧
      fault = .starved arc.1 arc.2 (m.count arc.1)) ∨
    ∃ arc ∈ a.post, a.spills cap m arc = true ∧ fault = .overflow arc.1 := by
  cases hstarve : a.pre.find? (Row.starves m) with
  | some arc =>
    rw [fire_eq_starved hpre hstarve] at h
    have htest := List.find?_some hstarve
    exact .inl ⟨arc, List.mem_of_find?_eq_some hstarve, (Bool.not_eq_true' _).mp htest,
      (Except.error.inj h).symm⟩
  | none =>
    cases hspill : a.post.find? (a.spills cap m) with
    | some arc =>
      rw [fire_eq_overflow hpre hpost hstarve hspill] at h
      exact .inr ⟨arc, List.mem_of_find?_eq_some hspill, List.find?_some hspill,
        (Except.error.inj h).symm⟩
    | none =>
      obtain ⟨m', hfire⟩ := exists_fire_within hpre hpost hstarve hspill
      rw [hfire] at h
      cases h

theorem spills_eq_false_of_fire (h : a.fire cap m = .ok m') (harc : arc ∈ a.post) :
    a.spills cap m arc = false := by
  cases hspill : a.post.find? (a.spills cap m) with
  | none => exact Bool.eq_false_iff.2 (List.find?_eq_none.1 hspill arc harc)
  | some arc' =>
    rw [fire_eq_overflow hpre hpost (Row.isCovered_iff.1 (isEnabled_of_fire h)) hspill] at h
    cases h

end FirstFault

/-! ### Undoing a step -/

/-- The arcs join places among the first `n` ones. -/
def InRange (a : Arcs) (n : Nat) : Prop :=
  (∀ arc ∈ a.pre, arc.1.index < n) ∧ ∀ arc ∈ a.post, arc.1.index < n

theorem InRange.reverse {n : Nat} (h : a.InRange n) : a.reverse.InRange n := ⟨h.2, h.1⟩

/-- What has been fired can be undone, and this gives back the marking. -/
theorem fire_reverse_of_fire (ha : a.InRange m.size) (hm : m.Within cap)
    (h : a.fire cap m = .ok m') : a.reverse.fire cap m' = .ok m := by
  obtain ⟨hcov, hs, hc⟩ := fire_eq_ok_iff.1 (fire_none_of_fire h)
  have hundone : a.reverse.fire none m' = .ok m := by
    refine fire_eq_ok_iff.2 ⟨fun p => ?_, hs.symm, fun p hp => ?_⟩
    · by_cases hp : p.index < m.size
      · rw [hc p hp]
        exact Token.covers_plus_self
      · show (m'.count p).covers (a.post.weight p) = true
        rw [Row.weight_eq_zero_of_le ha.2 (Nat.le_of_not_lt hp)]
        exact Token.covers_zero
    · show m.count p = ((m'.count p).minus (a.post.weight p)).plus (a.pre.weight p)
      rw [hc p (hs ▸ hp), Token.plus_minus_self, Token.minus_plus_self (hcov p)]
  obtain ⟨l, htake, hgive⟩ := fire_eq_ok_cases.1 hundone
  have hl : l.size = m.size := (Row.take_eq_ok_iff.1 htake).2.1.trans hs
  refine fire_eq_ok_cases.2 ⟨l, htake, Row.give_of_within ?_ hgive hm⟩
  rw [hl]
  exact ha.1

/-- Firing and undoing are inverse to each other. -/
theorem fire_eq_ok_iff_fire_reverse (ha : a.InRange m.size) (hm : m.Within cap)
    (hm' : m'.Within cap) : a.fire cap m = .ok m' ↔ a.reverse.fire cap m' = .ok m := by
  refine ⟨fire_reverse_of_fire ha hm, fun h => ?_⟩
  have hsize : m.size = m'.size := size_of_fire h
  exact fire_reverse_of_fire (hsize ▸ ha.reverse) hm' h

/-! ### More tokens -/

/-- A marking that covers another one enables what that one enables. -/
theorem isEnabled_of_le (h : m ≤ n) (hm : a.isEnabled m = true) : a.isEnabled n = true :=
  Row.isCovered_of_le h hm

/-- Firing keeps the order of markings. -/
theorem fire_le_fire {n' : Marking} (h : m ≤ n) (hm : a.fire none m = .ok m')
    (hn : a.fire none n = .ok n') : m' ≤ n' := by
  obtain ⟨-, hs, hc⟩ := fire_eq_ok_iff.1 hm
  obtain ⟨-, hs', hc'⟩ := fire_eq_ok_iff.1 hn
  have hsize : m.size = n.size := Marking.size_eq_of_le h
  refine ⟨hs.trans (hsize.trans hs'.symm), fun p => ?_⟩
  by_cases hp : p.index < m.size
  · rw [hc p hp, hc' p (hsize ▸ hp)]
    exact Token.plus_le_plus (Token.minus_le_minus (Marking.count_le_of_le h p))
  · rw [Marking.count_eq_zero_of_le (hs.symm ▸ Nat.le_of_not_lt hp)]
    exact Token.zero_le

/-- Firing leaves alone what is added to a marking. -/
theorem fire_plus (d : PlaceId → Nat) (h : a.fire none m = .ok m') :
    a.fire none (m.plus d) = .ok (m'.plus d) := by
  obtain ⟨hcov, hs, hc⟩ := fire_eq_ok_iff.1 h
  refine fire_eq_ok_iff.2 ⟨fun p => ?_, ?_, fun p hp => ?_⟩
  · by_cases hp : p.index < m.size
    · rw [Marking.count_plus hp]
      exact Token.covers_plus (d p) (hcov p)
    · have hle : m.size ≤ p.index := Nat.le_of_not_lt hp
      have hp' := hcov p
      rw [Marking.count_eq_zero_of_le hle] at hp'
      rwa [Marking.count_eq_zero_of_le (by rwa [Marking.size_plus])]
  · rw [Marking.size_plus, Marking.size_plus, hs]
  · rw [Marking.size_plus] at hp
    rw [Marking.count_plus hp, Marking.count_plus (hs.symm ▸ hp), hc p hp,
      Token.plus_minus_plus (d p) _ (hcov p)]

/-- Firing neither makes nor removes an `ω`. -/
theorem count_eq_omega_iff_of_fire (h : a.fire cap m = .ok m') (p : PlaceId) :
    m'.count p = .omega ↔ m.count p = .omega := by
  obtain ⟨-, hs, hc⟩ := fire_eq_ok_iff.1 (fire_none_of_fire h)
  by_cases hp : p.index < m.size
  · rw [hc p hp]
    cases m.count p <;> simp [Token.minus, Token.plus]
  · have hle : m.size ≤ p.index := Nat.le_of_not_lt hp
    rw [Marking.count_eq_zero_of_le hle, Marking.count_eq_zero_of_le (hs.symm ▸ hle)]

theorem hasOmega_of_fire (h : a.fire cap m = .ok m') : m'.hasOmega = m.hasOmega := by
  rw [Bool.eq_iff_iff, Marking.hasOmega_iff, Marking.hasOmega_iff]
  exact exists_congr (count_eq_omega_iff_of_fire h)

end Arcs

end PetriNets
