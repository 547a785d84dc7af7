import Mathlib.Data.Finset.Card
import PetriNets.Marking
import PetriNets.Proofs.Table
import PetriNets.Proofs.Token

/-!
# The order of markings

A marking is known by its size and by what it holds on each place (`ext_count`). Markings of one
size are ordered place by place, and this is what `covers` and `strictlyCovers` decide
(`covers_iff`, `strictlyCovers_iff`).
-/

namespace PetriNets.Marking

variable {m n : Marking} {p : PlaceId}

theorem tokens_getElem? (h : p.index < m.size) : m.tokens[p.index]? = some (m.count p) := by
  unfold count
  rw [List.getElem?_eq_getElem h, Option.getD_some]

theorem count_eq_zero_of_le (h : m.size ≤ p.index) : m.count p = .zero := by
  unfold count
  rw [List.getElem?_eq_none h, Option.getD_none]

/-- Only a place of the marking can hold more than nothing. -/
theorem index_lt_of_count_ne_zero (h : m.count p ≠ .zero) : p.index < m.size := by
  by_contra hp
  exact h (count_eq_zero_of_le (Nat.le_of_not_lt hp))

theorem ext_count (hs : m.size = n.size)
    (hc : ∀ p : PlaceId, p.index < m.size → m.count p = n.count p) : m = n := by
  have htokens : m.tokens = n.tokens := by
    apply List.ext_getElem?
    intro i
    by_cases hi : i < m.size
    · rw [tokens_getElem? (p := ⟨i⟩) hi, tokens_getElem? (p := ⟨i⟩) (hs ▸ hi), hc _ hi]
    · have hle : m.size ≤ i := Nat.le_of_not_lt hi
      rw [List.getElem?_eq_none hle, List.getElem?_eq_none (show n.size ≤ i from hs ▸ hle)]
  cases m
  cases n
  exact congrArg Marking.mk htokens

/-- What writing a place does to all places, when the place holds nothing outside the marking. -/
theorem count_set {q : PlaceId} {t : Token} (h : m.size ≤ q.index → t = .zero) :
    (m.set q t).count p = if p = q then t else m.count p := by
  by_cases hpq : p = q
  · subst hpq
    rw [if_pos rfl]
    by_cases hp : p.index < m.size
    · exact count_set_self hp t
    · have hle : m.size ≤ p.index := Nat.le_of_not_lt hp
      rw [h hle, count_eq_zero_of_le (by rwa [size_set])]
  · rw [if_neg hpq]
    exact count_set_of_ne (Ne.symm hpq) t

/-! ## The order place by place -/

instance : PartialOrder Marking where
  le m n := m.size = n.size ∧ ∀ p, m.count p ≤ n.count p
  le_refl m := ⟨rfl, fun _ => le_refl _⟩
  le_trans _ _ _ h h' := ⟨h.1.trans h'.1, fun p => (h.2 p).trans (h'.2 p)⟩
  le_antisymm _ _ h h' := ext_count h.1 fun p _ => le_antisymm (h.2 p) (h'.2 p)

theorem size_eq_of_le (h : m ≤ n) : m.size = n.size := h.1

theorem count_le_of_le (h : m ≤ n) (p : PlaceId) : m.count p ≤ n.count p := h.2 p

/-- Only a place of the marking can hold more than anything. -/
theorem index_lt_of_count_lt {t : Token} (h : t < m.count p) : p.index < m.size :=
  index_lt_of_count_ne_zero fun hzero => not_lt_of_ge Token.zero_le (hzero ▸ h)

theorem lt_iff : m < n ↔ m ≤ n ∧ ∃ p, m.count p < n.count p := by
  rw [lt_iff_le_not_ge]
  refine and_congr_right fun h => ?_
  constructor
  · intro hn
    by_contra hnone
    push Not at hnone
    exact hn ⟨h.1.symm, fun p => Token.not_lt_iff_le.1 (hnone p)⟩
  · rintro ⟨p, hp⟩ hn
    exact not_le_of_gt hp (hn.2 p)

/-- The signs of the places one by one. -/
theorem zipWith_compare_eq (h : m.size = n.size) : List.zipWith compare m.tokens n.tokens =
    (Id.upTo m.size).map fun p : PlaceId => compare (m.count p) (n.count p) := by
  refine List.ext_getElem? fun i => ?_
  unfold Id.upTo
  rw [List.map_map, List.getElem?_zipWith, List.getElem?_map]
  by_cases hi : i < m.size
  · rw [tokens_getElem? (p := ⟨i⟩) hi, tokens_getElem? (p := ⟨i⟩) (h ▸ hi), List.getElem?_range hi]
    rfl
  · have hle : m.size ≤ i := Nat.le_of_not_lt hi
    have hrange : (List.range m.size)[i]? = none := List.getElem?_eq_none (by simpa using hle)
    rw [List.getElem?_eq_none hle, hrange]
    rfl

/-- A sign other than equality occurs where two markings are compared at some place. -/
theorem contains_sign_iff (h : m.size = n.size) {o : Ordering} (ho : o ≠ .eq) :
    (List.zipWith compare m.tokens n.tokens).contains o = true ↔
      ∃ p, compare (m.count p) (n.count p) = o := by
  rw [List.contains_iff_mem, zipWith_compare_eq h, List.mem_map]
  constructor
  · rintro ⟨p, -, hp⟩
    exact ⟨p, hp⟩
  · rintro ⟨p, hp⟩
    refine ⟨p, Id.mem_upTo.2 ?_, hp⟩
    by_contra hlt
    have hle : m.size ≤ p.index := Nat.le_of_not_lt hlt
    rw [count_eq_zero_of_le hle, count_eq_zero_of_le (h ▸ hle)] at hp
    exact ho hp.symm

/-- The signs that occur tell the order. -/
theorem le_iff_contains_gt (h : m.size = n.size) :
    m ≤ n ↔ (List.zipWith compare m.tokens n.tokens).contains .gt = false := by
  rw [← Bool.not_eq_true, contains_sign_iff h (by decide), not_exists]
  simp only [Token.compare_eq_gt_iff, Token.not_lt_iff_le]
  exact and_iff_right h

theorem ge_iff_contains_lt (h : m.size = n.size) :
    n ≤ m ↔ (List.zipWith compare m.tokens n.tokens).contains .lt = false := by
  rw [← Bool.not_eq_true, contains_sign_iff h (by decide), not_exists]
  simp only [Token.compare_eq_lt_iff, Token.not_lt_iff_le]
  exact and_iff_right h.symm

open Classical in
/-- The sign of two markings, told by the order. -/
theorem compare?_eq_ite (m n : Marking) : m.compare? n =
    if m ≤ n then if n ≤ m then some .eq else some .lt else if n ≤ m then some .gt else none := by
  unfold compare?
  split
  · next h =>
    have hle : ¬ m ≤ n := fun hle => h (size_eq_of_le hle)
    have hge : ¬ n ≤ m := fun hge => h (size_eq_of_le hge).symm
    rw [if_neg hle, if_neg hge]
  · next h =>
    have hs : m.size = n.size := not_not.1 h
    simp only [ge_iff_contains_lt hs, le_iff_contains_gt hs]
    generalize (List.zipWith compare m.tokens n.tokens).contains .lt = less
    generalize (List.zipWith compare m.tokens n.tokens).contains .gt = greater
    cases less <;> cases greater <;> rfl

theorem compare?_eq_gt_iff : m.compare? n = some .gt ↔ n < m := by
  rw [compare?_eq_ite, lt_iff_le_not_ge]
  split_ifs <;> simp_all

theorem compare?_eq_lt_iff : m.compare? n = some .lt ↔ m < n := by
  rw [compare?_eq_ite, lt_iff_le_not_ge]
  split_ifs <;> simp_all

theorem compare?_eq_eq_iff : m.compare? n = some .eq ↔ m = n := by
  rw [compare?_eq_ite, le_antisymm_iff (a := m)]
  split_ifs <;> simp_all

theorem isSome_compare?_iff : (m.compare? n).isSome = true ↔ m ≤ n ∨ n ≤ m := by
  rw [compare?_eq_ite]
  split_ifs <;> simp_all

theorem strictlyCovers_iff : m.strictlyCovers n = true ↔ n < m := by
  unfold strictlyCovers
  rw [decide_eq_true_iff, compare?_eq_gt_iff]

theorem covers_iff : m.covers n = true ↔ n ≤ m := by
  unfold covers
  rw [Bool.or_eq_true, decide_eq_true_iff, decide_eq_true_iff, compare?_eq_gt_iff,
    compare?_eq_eq_iff, le_iff_lt_or_eq, eq_comm]

/-! ## Markings without `ω` -/

theorem hasOmega_iff : m.hasOmega = true ↔ ∃ p, m.count p = .omega := by
  unfold hasOmega
  rw [List.any_eq_true]
  constructor
  · rintro ⟨t, ht, homega⟩
    obtain ⟨i, hi⟩ := List.mem_iff_getElem?.1 ht
    refine ⟨⟨i⟩, ?_⟩
    unfold count
    rw [hi, Option.getD_some]
    exact Token.isOmega_iff.1 homega
  · rintro ⟨p, hp⟩
    have hlt : p.index < m.size := index_lt_of_count_ne_zero (by rw [hp]; nofun)
    exact ⟨.omega, hp ▸ List.mem_of_getElem? (tokens_getElem? hlt), rfl⟩

theorem hasOmega_eq_false_iff : m.hasOmega = false ↔ ∀ p, ∃ c, m.count p = .finite c := by
  rw [← Bool.not_eq_true, hasOmega_iff, not_exists]
  refine forall_congr' fun p => ?_
  cases m.count p <;> simp

theorem hasOmega_ofCounts (counts : List Nat) : (ofCounts counts).hasOmega = false := by
  unfold hasOmega ofCounts
  rw [List.any_map, List.any_eq_false]
  exact fun _ _ => nofun

theorem mem_omegaPlaces : p ∈ m.omegaPlaces ↔ m.count p = .omega := by
  unfold omegaPlaces entries places
  simp only [List.mem_map, List.mem_filter, Prod.exists, exists_and_right, exists_eq_right]
  constructor
  · rintro ⟨t, hmem, ht⟩
    have hget := Id.mem_upTo_zip.1 hmem
    unfold count
    rw [hget, Option.getD_some]
    exact Token.isOmega_iff.1 ht
  · intro h
    have hlt : p.index < m.size := index_lt_of_count_ne_zero (by rw [h]; nofun)
    refine ⟨.omega, Id.mem_upTo_zip.2 ?_, rfl⟩
    rw [tokens_getElem? hlt, h]

/-- How many places hold `ω`. -/
def omegaCount (m : Marking) : Nat := m.omegaPlaces.toFinset.card

theorem omegaCount_le_size (m : Marking) : m.omegaCount ≤ m.size := by
  have hlength : m.omegaPlaces.length ≤ m.size := by
    unfold omegaPlaces entries places size
    rw [List.length_map]
    refine (List.length_filter_le _ _).trans ?_
    rw [List.length_zip, Id.length_upTo]
    omega
  exact (List.toFinset_card_le _).trans hlength

/-- Where a marking has risen to one with an `ω` that was not there, it holds more of them. -/
theorem omegaCount_lt (h : m ≤ n) (hm : m.count p ≠ .omega) (hn : n.count p = .omega) :
    m.omegaCount < n.omegaCount := by
  have hsub : m.omegaPlaces.toFinset ⊆ n.omegaPlaces.toFinset := by
    intro q hq
    rw [List.mem_toFinset, mem_omegaPlaces] at hq ⊢
    exact le_antisymm Token.le_omega (hq ▸ count_le_of_le h q)
  refine Finset.card_lt_card ((Finset.ssubset_iff_of_subset hsub).2 ⟨p, ?_, ?_⟩)
  · simpa [mem_omegaPlaces] using hn
  · simpa [mem_omegaPlaces] using hm

/-- All counts stay within a capacity. -/
def Within (cap : Capacity) (m : Marking) : Prop := ∀ p, (m.count p).within cap = true

/-! ## Markings given place by place -/

/-- The marking of `n` places that holds `f p` on each place `p`. -/
def tabulate (n : Nat) (f : PlaceId → Token) : Marking := ⟨(Id.upTo n).map f⟩

@[simp] theorem size_tabulate (k : Nat) (f : PlaceId → Token) : (tabulate k f).size = k := by
  unfold tabulate size
  rw [List.length_map, Id.length_upTo]

theorem count_tabulate {k : Nat} {f : PlaceId → Token} (h : p.index < k) :
    (tabulate k f).count p = f p := by
  unfold tabulate count Id.upTo
  rw [List.map_map, List.getElem?_map, List.getElem?_range h]
  rfl

/-- The marking with `d p` tokens more on each place `p`. -/
def plus (m : Marking) (d : PlaceId → Nat) : Marking :=
  tabulate m.size fun p => (m.count p).plus (d p)

@[simp] theorem size_plus (d : PlaceId → Nat) : (m.plus d).size = m.size := size_tabulate _ _

theorem count_plus {d : PlaceId → Nat} (h : p.index < m.size) :
    (m.plus d).count p = (m.count p).plus (d p) := count_tabulate h

theorem plus_zero (m : Marking) : (m.plus fun _ => 0) = m := by
  refine ext_count (size_plus _) fun p hp => ?_
  rw [size_plus] at hp
  rw [count_plus hp, Token.plus_zero]

theorem plus_plus (d e : PlaceId → Nat) : (m.plus d).plus e = m.plus fun p => d p + e p := by
  refine ext_count (by simp) fun p hp => ?_
  rw [size_plus, size_plus] at hp
  rw [count_plus (by rwa [size_plus]), count_plus hp, count_plus hp, Token.plus_plus]

end PetriNets.Marking
