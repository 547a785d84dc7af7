import PetriNets.Proofs.Net.InStep

/-!
# The firing rule by names

`Net.firing` tells what firing a transition comes to in the names of places and in the flows of the
net alone. It is what firing by compiled arcs comes to (`fire_eq_firing`): an arc of a row stands for
one flow, the rows are in the order of the flows, and each place occurs in a row once, so the first
arc that fails is the first flow that does (`find?_pre`, `find?_post`). `fire_exact` collects what
follows for a marking whose counts fit into words.
-/

namespace PetriNets

/-- Pairing with what a function gives and keeping those that pass a test of it, or keeping them at
once. -/
theorem map_fst_filter_zip_map {α β : Type} (xs : List α) (f : α → β) (test : β → Bool) :
    ((xs.zip (xs.map f)).filter fun e => test e.2).map Prod.fst = xs.filter fun x => test (f x) := by
  induction xs with
  | nil => rfl
  | cons x xs ih =>
    rw [List.map_cons, List.zip_cons_cons, List.filter_cons, List.filter_cons]
    split
    · rw [List.map_cons, ih]
    · exact ih

namespace Net

/-- What a marking puts on the place of a name. -/
def held (net : Net) (m : Marking) (v : String) : Token := (net.tokensOn m v).toOption.getD .zero

/-- The weight of the flow from one node to another; where there is none it weighs nothing. -/
def weight (net : Net) (source target : String) : Nat :=
  ((net.flow source target).toOption.map Edge.data).getD 0

/-- What a place holds once a transition has taken its tokens and given others. -/
def afterFiring (net : Net) (m : Marking) (t v : String) : Token :=
  ((net.held m v).minus (net.weight v t)).plus (net.weight t v)

/-- The place holds too little for the transition. -/
def Starves (net : Net) (m : Marking) (t v : String) : Prop :=
  (net.held m v).covers (net.weight v t) = false

/-- The place would hold more than a word can count. -/
def Overflows (net : Net) (m : Marking) (t v : String) : Prop :=
  (net.afterFiring m t v).within .word = false

instance (net : Net) (m : Marking) (t v : String) : Decidable (net.Starves m t v) :=
  inferInstanceAs (Decidable (_ = false))

instance (net : Net) (m : Marking) (t v : String) : Decidable (net.Overflows m t v) :=
  inferInstanceAs (Decidable (_ = false))

/-- A flow into the transition that takes more than its place holds. -/
def starvesAt (net : Net) (m : Marking) (t : String) (f : Flow) : Bool :=
  f.key.target = t && !(net.held m f.key.source).covers f.data

/-- A flow out of the transition to a place that would hold more than a word can count. -/
def overflowsAt (net : Net) (m : Marking) (t : String) (f : Flow) : Bool :=
  f.key.source = t && !(net.afterFiring m t f.key.target).within .word

/-- What firing a transition comes to: refused at the first flow whose place starves, or else at the
first one whose place overflows, and otherwise done on every place. -/
def firing (net : Net) (m : Marking) (t : String) : Except FireError Marking :=
  match net.flows.find? (net.starvesAt m t) with
  | some f => .error (.notEnabled t f.key.source f.data (net.held m f.key.source))
  | none =>
    match net.flows.find? (net.overflowsAt m t) with
    | some f => .error (.tokenOverflow t f.key.target)
    | none => .ok ⟨net.placeIds.map (net.afterFiring m t)⟩

variable {net : Net} {m m' : Marking} {p : PlaceId} {t : TransitionId} {r : TransitionRef}
  {v id source target : String} {f : Flow} {fs : List Flow} {place : Flow → String}

theorem starvesAt_iff : net.starvesAt m id f = true ↔
    f.key.target = id ∧ (net.held m f.key.source).covers f.data = false := by
  unfold starvesAt
  rw [Bool.and_eq_true, decide_eq_true_iff, Bool.not_eq_true']

theorem overflowsAt_iff : net.overflowsAt m id f = true ↔
    f.key.source = id ∧ net.Overflows m id f.key.target := by
  unfold overflowsAt Overflows
  rw [Bool.and_eq_true, decide_eq_true_iff, Bool.not_eq_true']

/-! ## Weights -/

theorem placeName_of_placeIndex? (hp : net.placeIndex? v = some p) : net.placeName p = v := by
  unfold placeName
  rw [placeIds_getElem?_of_placeIndex? hp, Option.getD_some]

theorem index_lt_of_placeIndex? (hp : net.placeIndex? v = some p) : p.index < net.placeCount := by
  rw [← length_placeIds]
  exact (List.getElem?_eq_some_iff.1 (placeIds_getElem?_of_placeIndex? hp)).1

theorem index_lt_of_mem_row (place : Flow → String) {arc : PlaceId × Nat}
    (h : arc ∈ net.row place fs) : arc.1.index < net.placeCount := by
  obtain ⟨f, -, hf⟩ := List.mem_filterMap.1 h
  obtain ⟨p, hp, rfl⟩ := Option.map_eq_some_iff.1 hf
  exact index_lt_of_placeIndex? hp

/-- The arcs of a transition join places of the net. -/
theorem inRange_arcsNamed (net : Net) (id : String) : (net.arcsNamed id).InRange net.placeCount :=
  ⟨fun _ harc => index_lt_of_mem_row (fun f => f.key.source) harc,
    fun _ harc => index_lt_of_mem_row (fun f => f.key.target) harc⟩

theorem held_eq (hp : net.placeIndex? v = some p) : net.held m v = m.count p := by
  unfold held tokensOn placeIndex
  rw [hp]
  rfl

theorem weight_eq (h : net.WellFormed) (source target : String) : net.weight source target =
    ((net.flows.find? fun f => f.key.source = source ∧ f.key.target = target).map Edge.data).getD 0 := by
  have hfind : net.graph.edge? ⟨source, target, none⟩ =
      net.flows.find? fun f => f.key.source = source ∧ f.key.target = target := by
    refine List.find?_congr fun f hf => ?_
    have hnone := h.unlabelled f.key (List.mem_map_of_mem hf)
    obtain ⟨⟨s, t, l⟩, w, ext⟩ := f
    simp_all
  unfold weight flow Graph.edge
  rw [← hfind]
  cases net.graph.edge? ⟨source, target, none⟩ <;> rfl

theorem weight_of_mem (h : net.WellFormed) (hf : f ∈ net.flows) :
    net.weight f.key.source f.key.target = f.data := by
  have hedge : net.graph.edge? ⟨f.key.source, f.key.target, none⟩ = some f := by
    refine h.graph.edge?_eq_some_iff.2 ⟨hf, ?_⟩
    rw [← h.unlabelled f.key (List.mem_map_of_mem hf)]
  unfold weight flow Graph.edge
  rw [hedge]
  rfl

theorem exists_flow_of_weight_ne_zero (h : net.WellFormed) (hne : net.weight source target ≠ 0) :
    ∃ f ∈ net.flows, f.key.source = source ∧ f.key.target = target := by
  rw [weight_eq h] at hne
  cases hfind : net.flows.find? fun f => f.key.source = source ∧ f.key.target = target with
  | none =>
    rw [hfind] at hne
    exact absurd rfl hne
  | some f =>
    exact ⟨f, List.mem_of_find?_eq_some hfind, by simpa using List.find?_some hfind⟩

/-- What a row puts on a place, told by the flow that joins it. -/
theorem weight_row (hnodup : (fs.map place).Nodup) (hp : net.placeIndex? v = some p) :
    (net.row place fs).weight p = ((fs.find? fun f => place f = v).map Edge.data).getD 0 := by
  cases hfind : fs.find? fun f => place f = v with
  | none =>
    refine Row.weight_eq_zero_of_notMem fun hmem => ?_
    obtain ⟨⟨q, w⟩, hrow, rfl⟩ := List.mem_map.1 hmem
    obtain ⟨f, hf, harc⟩ := List.mem_filterMap.1 hrow
    obtain ⟨q', hq', hpair⟩ := Option.map_eq_some_iff.1 harc
    obtain ⟨rfl, -⟩ := Prod.mk.inj hpair
    have hv := placeIds_getElem?_of_placeIndex? hp
    rw [placeIds_getElem?_of_placeIndex? hq'] at hv
    have hne := List.find?_eq_none.1 hfind f hf
    exact hne (decide_eq_true (Option.some.inj hv))
  | some f =>
    have hplace : place f = v := by simpa using List.find?_some hfind
    refine Row.weight_eq_of_mem (nodup_row hnodup) (List.mem_filterMap.2 ?_)
    refine ⟨f, List.mem_of_find?_eq_some hfind, ?_⟩
    rw [hplace, hp]
    rfl

theorem weight_pre (h : net.WellFormed) (hp : net.placeIndex? v = some p) (id : String) :
    (net.arcsNamed id).pre.weight p = net.weight v id := by
  rw [h.pre_arcsNamed, weight_row (h.nodup_sources id) hp, weight_eq h, List.find?_filter]
  simp [and_comm]

theorem weight_post (h : net.WellFormed) (hp : net.placeIndex? v = some p) (id : String) :
    (net.arcsNamed id).post.weight p = net.weight id v := by
  rw [h.post_arcsNamed, weight_row (h.nodup_targets id) hp, weight_eq h, List.find?_filter]
  simp

/-! ## The first fault -/

/-- Looking for an arc of a row is looking for its flow. -/
theorem find?_row {test : PlaceId × Nat → Bool} (test' : Flow → Bool)
    (hplaces : ∀ f ∈ fs, ∃ p, net.placeIndex? (place f) = some p)
    (htest : ∀ f ∈ fs, ∀ p, net.placeIndex? (place f) = some p → test (p, f.data) = test' f) :
    (net.row place fs).find? test =
      (fs.find? test').bind fun f => (net.placeIndex? (place f)).map (·, f.data) := by
  unfold row
  rw [List.find?_filterMap]
  congr 1
  refine List.find?_congr fun f hf => ?_
  obtain ⟨p, hp⟩ := hplaces f hf
  rw [hp]
  exact htest f hf p hp

variable {cap : Capacity}

theorem transitionName_of_transitionIndex (ht : net.transitionIndex id = .ok t) :
    net.transitionName t = id ∧ t.index < net.transitionCount ∧
      net.transitionIndex? id = some t ∧ id ∈ net.transitionIds := by
  unfold transitionIndex at ht
  cases hindex : net.transitionIndex? id with
  | none =>
    rw [hindex] at ht
    cases ht
  | some t' =>
    rw [hindex] at ht
    obtain rfl := Except.ok.inj ht
    have hname := transitionIds_getElem?_of_transitionIndex? hindex
    have hlt : t'.index < net.transitionCount :=
      length_transitionIds ▸ (List.getElem?_eq_some_iff.1 hname).1
    refine ⟨?_, hlt, rfl, List.mem_of_getElem? hname⟩
    unfold transitionName
    rw [hname, Option.getD_some]

/-- A flow that joins a transition has a place at its other end. -/
theorem exists_placeIndex?_source (h : net.Built) (ht : id ∈ net.transitionIds) (hf : f ∈ net.flows)
    (htarget : f.key.target = id) : ∃ p, net.placeIndex? f.key.source = some p := by
  obtain ⟨-, ⟨hsource, -⟩ | ⟨-, hplace⟩⟩ := h.legal f hf
  · exact exists_placeIndex? h.wellFormed hsource
  · exact absurd (htarget ▸ hplace) (notMem_placeIds h.wellFormed ht)

theorem exists_placeIndex?_target (h : net.Built) (ht : id ∈ net.transitionIds) (hf : f ∈ net.flows)
    (hsource : f.key.source = id) : ∃ p, net.placeIndex? f.key.target = some p := by
  obtain ⟨-, ⟨hplace, -⟩ | ⟨-, htarget⟩⟩ := h.legal f hf
  · exact absurd (hsource ▸ hplace) (notMem_placeIds h.wellFormed ht)
  · exact exists_placeIndex? h.wellFormed htarget

theorem find?_pre (h : net.Built) (ht : id ∈ net.transitionIds) (m : Marking) :
    (net.arcsNamed id).pre.find? (Row.starves m) = (net.flows.find? (net.starvesAt m id)).bind
      fun f => (net.placeIndex? f.key.source).map (·, f.data) := by
  rw [h.wellFormed.pre_arcsNamed, find?_row fun f => !(net.held m f.key.source).covers f.data,
    List.find?_filter]
  · congr 2
    funext f
    simp [starvesAt]
  · intro f hf
    obtain ⟨hf, htarget⟩ := List.mem_filter.1 hf
    exact exists_placeIndex?_source h ht hf (of_decide_eq_true htarget)
  · intro f hf p hp
    unfold Row.starves
    rw [held_eq hp]

theorem find?_post (h : net.Built) (ht : id ∈ net.transitionIds) (m : Marking) :
    (net.arcsNamed id).post.find? ((net.arcsNamed id).spills .word m) =
      (net.flows.find? (net.overflowsAt m id)).bind
        fun f => (net.placeIndex? f.key.target).map (·, f.data) := by
  rw [h.wellFormed.post_arcsNamed,
    find?_row fun f => !(net.afterFiring m id f.key.target).within .word, List.find?_filter]
  · congr 2
    funext f
    simp [overflowsAt]
  · intro f hf
    obtain ⟨hf, hsource⟩ := List.mem_filter.1 hf
    exact exists_placeIndex?_target h ht hf (of_decide_eq_true hsource)
  · intro f hf p hp
    obtain ⟨hflow, hsource⟩ := List.mem_filter.1 hf
    have hweight := weight_of_mem h.wellFormed hflow
    rw [of_decide_eq_true hsource] at hweight
    unfold Arcs.spills afterFiring
    rw [held_eq hp, weight_pre h.wellFormed hp, hweight]

/-! ## Firing -/

theorem resolve_eq_ok (ht : net.transitionIndex id = .ok t) (hr : r = .name id ∨ r = .number t) :
    net.resolve r = .ok t := by
  obtain ⟨-, hlt, hindex, -⟩ := transitionName_of_transitionIndex ht
  rcases hr with rfl | rfl
  · unfold resolve
    dsimp only
    rw [hindex]
  · exact resolve_number_eq_ok_iff.2 ⟨hlt, rfl⟩

theorem fire_eq_mapError (hsize : m.size = net.placeCount) (ht : net.transitionIndex id = .ok t)
    (hr : r = .name id ∨ r = .number t) :
    net.fire m r = ((net.arcsNamed id).fire .word m).mapError (net.faultError t) := by
  unfold fire
  rw [fireWithin_eq_mapError hsize (resolve_eq_ok ht hr), (transitionName_of_transitionIndex ht).1]

/-- What is left on a place and what is added to it, by its name. -/
theorem count_of_fire (h : net.Built) (hsize : m.size = net.placeCount)
    (hfire : (net.arcsNamed id).fire cap m = .ok m') (hp : net.placeIndex? v = some p) :
    m'.count p = net.afterFiring m id v := by
  obtain ⟨-, -, hcount⟩ := Arcs.fire_eq_ok_iff.1 (Arcs.fire_none_of_fire hfire)
  unfold afterFiring
  rw [hcount p (hsize ▸ index_lt_of_placeIndex? hp), held_eq hp, weight_pre h.wellFormed hp,
    weight_post h.wellFormed hp]

/-- Every place that has its tokens makes the marking. -/
theorem eq_of_count (hsize : m'.size = net.placeCount) {after : String → Token}
    (hcount : ∀ v p, net.placeIndex? v = some p → m'.count p = after v)
    (h : net.WellFormed) : m' = ⟨net.placeIds.map after⟩ := by
  have hlength : (net.placeIds.map after).length = net.placeCount := by
    rw [List.length_map, length_placeIds]
  refine Marking.ext_count (hsize.trans hlength.symm) fun p hp => ?_
  have hname := placeIds_getElem? (hsize ▸ hp : p.index < net.placeCount)
  rw [hcount _ p ((placeIndex?_eq_some_iff h).2 hname)]
  unfold Marking.count
  rw [List.getElem?_map, hname, Option.map_some, Option.getD_some]

/-- Firing by number and by name comes to what the names of the flows and places tell. -/
theorem fire_eq_firing (h : net.Built) (hsize : m.size = net.placeCount)
    (ht : net.transitionIndex id = .ok t) (hr : r = .name id ∨ r = .number t) :
    net.fire m r = net.firing m id := by
  have hwell := h.wellFormed
  obtain ⟨hname, -, -, hid⟩ := transitionName_of_transitionIndex ht
  have hpre := find?_pre h hid m
  have hpost := find?_post h hid m
  have hnodup := hwell.nodup_pre id
  have hnodup' := hwell.nodup_post id
  rw [fire_eq_mapError hsize ht hr]
  unfold firing
  cases hstarve : net.flows.find? (net.starvesAt m id) with
  | some f =>
    obtain ⟨htarget, -⟩ := starvesAt_iff.1 (List.find?_some hstarve)
    obtain ⟨p, hp⟩ := exists_placeIndex?_source h hid (List.mem_of_find?_eq_some hstarve) htarget
    rw [hstarve, Option.bind_some, hp, Option.map_some] at hpre
    rw [Arcs.fire_eq_starved hnodup hpre]
    show Except.error (FireError.notEnabled _ _ _ _) = _
    rw [hname, placeName_of_placeIndex? hp, ← held_eq hp]
  | none =>
    rw [hstarve, Option.bind_none] at hpre
    cases hover : net.flows.find? (net.overflowsAt m id) with
    | some f =>
      obtain ⟨hsource, -⟩ := overflowsAt_iff.1 (List.find?_some hover)
      obtain ⟨p, hp⟩ := exists_placeIndex?_target h hid (List.mem_of_find?_eq_some hover) hsource
      rw [hover, Option.bind_some, hp] at hpost
      rw [Arcs.fire_eq_overflow hnodup hnodup' hpre hpost]
      show Except.error (FireError.tokenOverflow _ _) = _
      rw [hname, placeName_of_placeIndex? hp]
    | none =>
      rw [hover, Option.bind_none] at hpost
      obtain ⟨m', hfire⟩ := Arcs.exists_fire_within hnodup hnodup' hpre hpost
      rw [hfire]
      show Except.ok m' = _
      have hsize' := (Arcs.size_of_fire hfire).trans hsize
      rw [eq_of_count hsize' (fun v p hp => count_of_fire h hsize hfire hp) hwell]

/-! ## When a place starves, when it overflows -/

theorem mem_placeIds_of_placeIndex? (hp : net.placeIndex? v = some p) : v ∈ net.placeIds :=
  List.mem_of_getElem? (placeIds_getElem?_of_placeIndex? hp)

/-- A place starves if and only if some flow takes too much from its place. -/
theorem exists_starvesAt_iff (h : net.Built) (hid : id ∈ net.transitionIds) (m : Marking) :
    (∃ f, net.flows.find? (net.starvesAt m id) = some f) ↔
      ∃ v ∈ net.placeIds, net.Starves m id v := by
  constructor
  · rintro ⟨f, hfind⟩
    have hf := List.mem_of_find?_eq_some hfind
    obtain ⟨htarget, hcov⟩ := starvesAt_iff.1 (List.find?_some hfind)
    obtain ⟨p, hp⟩ := exists_placeIndex?_source h hid hf htarget
    refine ⟨f.key.source, mem_placeIds_of_placeIndex? hp, ?_⟩
    unfold Starves
    rwa [← htarget, weight_of_mem h.wellFormed hf]
  · rintro ⟨v, -, hstarves⟩
    unfold Starves at hstarves
    have hne : net.weight v id ≠ 0 := by
      intro hzero
      rw [hzero, Token.covers_zero] at hstarves
      cases hstarves
    obtain ⟨f, hf, rfl, rfl⟩ := exists_flow_of_weight_ne_zero h.wellFormed hne
    rw [weight_of_mem h.wellFormed hf] at hstarves
    exact Option.isSome_iff_exists.1 (List.find?_isSome.2 ⟨f, hf, starvesAt_iff.2 ⟨rfl, hstarves⟩⟩)

/-- Where counts fit into words, a place overflows if and only if some flow brings too much to its
place. -/
theorem exists_overflowsAt_iff (h : net.Built) (hid : id ∈ net.transitionIds)
    (hword : ∀ p n, m.count p = .finite n → n ≤ maxWord) :
    (∃ f, net.flows.find? (net.overflowsAt m id) = some f) ↔
      ∃ v ∈ net.placeIds, net.Overflows m id v := by
  constructor
  · rintro ⟨f, hfind⟩
    obtain ⟨hsource, hover⟩ := overflowsAt_iff.1 (List.find?_some hfind)
    obtain ⟨p, hp⟩ := exists_placeIndex?_target h hid (List.mem_of_find?_eq_some hfind) hsource
    exact ⟨f.key.target, mem_placeIds_of_placeIndex? hp, hover⟩
  · rintro ⟨v, hv, hover⟩
    have hne : net.weight id v ≠ 0 := by
      intro hzero
      obtain ⟨p, hp⟩ := exists_placeIndex? h.wellFormed hv
      unfold Overflows afterFiring at hover
      rw [hzero, Token.plus_zero, held_eq hp] at hover
      cases hcount : m.count p with
      | omega =>
        rw [hcount] at hover
        cases hover
      | finite n =>
        rw [hcount] at hover
        have hle : n ≤ maxWord := hword p n hcount
        have hgt : ¬ n - net.weight v id ≤ maxWord := of_decide_eq_false hover
        omega
    obtain ⟨f, hf, rfl, rfl⟩ := exists_flow_of_weight_ne_zero h.wellFormed hne
    exact Option.isSome_iff_exists.1 (List.find?_isSome.2 ⟨f, hf, overflowsAt_iff.2 ⟨rfl, hover⟩⟩)

/-! ## What is enabled -/

theorem isEnabled_arcsNamed_iff (h : net.Built) (hid : id ∈ net.transitionIds) (m : Marking) :
    (net.arcsNamed id).isEnabled m = true ↔ ¬ ∃ v ∈ net.placeIds, net.Starves m id v := by
  unfold Arcs.isEnabled
  rw [Row.isCovered_iff, find?_pre h hid, ← exists_starvesAt_iff h hid]
  cases hfind : net.flows.find? (net.starvesAt m id) with
  | none => simp
  | some f =>
    obtain ⟨htarget, -⟩ := starvesAt_iff.1 (List.find?_some hfind)
    obtain ⟨p, hp⟩ := exists_placeIndex?_source h hid (List.mem_of_find?_eq_some hfind) htarget
    simp [hp]

/-- Looking up the arcs of one transition after the other finds what the table of all arcs has. -/
theorem enabledTransitions_eq (net : Net) (m : Marking) :
    net.enabledTransitions m = net.incidence.enabled m := by
  unfold enabledTransitions incidence Incidence.enabled Incidence.enabledArcs Table.entries Table.ids
  rw [Table.toList_ofList, ← Table.length_toList, Table.toList_ofList, List.length_map,
    length_transitionIds, ← map_transitionName_upTo, List.map_map]
  exact (map_fst_filter_zip_map _ _ fun a : Arcs => a.isEnabled m).symm

theorem pairwise_enabledTransitions (net : Net) (m : Marking) :
    (net.enabledTransitions m).Pairwise fun s t => s.index < t.index :=
  (Id.pairwise_upTo _).filter _

/-- Firing is refused for want of tokens. -/
def NotEnabled (net : Net) (m : Marking) (r : TransitionRef) : Prop :=
  ∃ s v w a, net.fire m r = .error (.notEnabled s v w a)

section Outcomes

variable (h : net.Built) (hsize : m.size = net.placeCount) (ht : net.transitionIndex id = .ok t)
  (hr : r = .name id ∨ r = .number t)
include h hsize ht hr

theorem notEnabled_iff : net.NotEnabled m r ↔ ∃ v ∈ net.placeIds, net.Starves m id v := by
  obtain ⟨-, -, -, hid⟩ := transitionName_of_transitionIndex ht
  rw [← exists_starvesAt_iff h hid]
  unfold NotEnabled
  rw [fire_eq_firing h hsize ht hr]
  unfold firing
  cases net.flows.find? (net.starvesAt m id) with
  | some f => simp
  | none => cases net.flows.find? (net.overflowsAt m id) <;> simp

theorem exists_isEnabled : ∃ b, net.isEnabled m r = .ok b ∧ (b = true ↔ ¬ net.NotEnabled m r) := by
  obtain ⟨hname, -, -, hid⟩ := transitionName_of_transitionIndex ht
  have hcheck : net.checkMarking m = .ok () := checkMarking_eq_ok_iff.2 hsize
  refine ⟨(net.arcsNamed id).isEnabled m, ?_, ?_⟩
  · unfold isEnabled arcs
    rw [hcheck, resolve_eq_ok ht hr]
    show Except.ok ((net.arcsNamed (net.transitionName t)).isEnabled m) = _
    rw [hname]
  · rw [notEnabled_iff h hsize ht hr]
    exact isEnabled_arcsNamed_iff h hid m

theorem mem_enabledTransitions_iff : t ∈ net.enabledTransitions m ↔ ¬ net.NotEnabled m r := by
  obtain ⟨hname, hlt, -, hid⟩ := transitionName_of_transitionIndex ht
  unfold enabledTransitions
  rw [List.mem_filter, Id.mem_upTo, hname, notEnabled_iff h hsize ht hr,
    ← isEnabled_arcsNamed_iff h hid]
  exact and_iff_right hlt

theorem marking_of_fire (hfire : net.fire m r = .ok m') : m'.size = net.placeCount ∧
    ∀ v ∈ net.placeIds, net.held m' v = net.afterFiring m id v := by
  rw [fire_eq_mapError hsize ht hr, mapError_eq_ok_iff] at hfire
  refine ⟨(Arcs.size_of_fire hfire).trans hsize, fun v hv => ?_⟩
  obtain ⟨p, hp⟩ := exists_placeIndex? h.wellFormed hv
  rw [held_eq hp, count_of_fire h hsize hfire hp]

end Outcomes

/-- The firing rule. Firing a transition, by its name or by its number, is refused at the first flow
whose place starves, or else at the first one whose place overflows, and otherwise makes the marking
that has on each place what was there less what is taken and more what is given. All ways of asking
whether the transition is enabled tell whether a place starves, and the two lists of what is enabled
are the same. -/
theorem fire_exact (h : net.Built) (hsize : m.size = net.placeCount)
    (hword : ∀ p n, m.count p = .finite n → n ≤ maxWord) (ht : net.transitionIndex id = .ok t)
    (hr : r = .name id ∨ r = .number t) :
    net.fire m r = net.firing m id ∧
      (∀ m', net.fire m r = .ok m' → m'.size = net.placeCount ∧
        ∀ v ∈ net.placeIds, net.held m' v = net.afterFiring m id v) ∧
      ((∃ m', net.fire m r = .ok m') ↔ (∀ v ∈ net.placeIds, ¬ net.Starves m id v) ∧
        ∀ v ∈ net.placeIds, ¬ net.Overflows m id v) ∧
      (net.NotEnabled m r ↔ ∃ v ∈ net.placeIds, net.Starves m id v) ∧
      ((∃ s v, net.fire m r = .error (.tokenOverflow s v)) ↔
        (∀ v ∈ net.placeIds, ¬ net.Starves m id v) ∧ ∃ v ∈ net.placeIds, net.Overflows m id v) ∧
      (∃ b, net.isEnabled m r = .ok b ∧ (b = true ↔ ¬ net.NotEnabled m r)) ∧
      (t ∈ net.enabledTransitions m ↔ ¬ net.NotEnabled m r) ∧
      (t ∈ net.incidence.enabled m ↔ ¬ net.NotEnabled m r) ∧
      net.enabledTransitions m = net.incidence.enabled m ∧
      (net.enabledTransitions m).Pairwise fun s t => s.index < t.index := by
  obtain ⟨-, -, -, hid⟩ := transitionName_of_transitionIndex ht
  have hfiring := fire_eq_firing h hsize ht hr
  have hmem := mem_enabledTransitions_iff h hsize ht hr
  have hstarves : net.flows.find? (net.starvesAt m id) = none ↔
      ∀ v ∈ net.placeIds, ¬ net.Starves m id v := by
    rw [← Option.not_isSome_iff_eq_none, Option.isSome_iff_exists, exists_starvesAt_iff h hid]
    push Not
    rfl
  have hover := exists_overflowsAt_iff h hid hword
  have hfits : net.flows.find? (net.overflowsAt m id) = none ↔
      ∀ v ∈ net.placeIds, ¬ net.Overflows m id v := by
    rw [← Option.not_isSome_iff_eq_none, Option.isSome_iff_exists, hover]
    push Not
    rfl
  refine ⟨hfiring, fun m' hm' => marking_of_fire h hsize ht hr hm', ?_,
    notEnabled_iff h hsize ht hr, ?_, exists_isEnabled h hsize ht hr, hmem, enabledTransitions_eq net m ▸ hmem,
    enabledTransitions_eq net m, pairwise_enabledTransitions net m⟩
  · rw [← hstarves, ← hfits, hfiring]
    unfold firing
    cases net.flows.find? (net.starvesAt m id) <;>
      cases net.flows.find? (net.overflowsAt m id) <;> simp
  · rw [← hstarves, ← hover, hfiring]
    unfold firing
    cases net.flows.find? (net.starvesAt m id) <;>
      cases net.flows.find? (net.overflowsAt m id) <;> simp

/-- A tank and a tap: as long as it is open, two tokens flow into the tank at a time. -/
def tankNet : Net := .ofScript "tank" [.createPlace "open", .createPlace "tank",
  .createTransition "fill", .createFlow "open" "fill" 1, .createFlow "fill" "open" 1,
  .createFlow "fill" "tank" 2]

/-- A full tank cannot be filled, but the tap is open. -/
theorem fire_exact_tankNet :
    tankNet.fire (.ofCounts [1, maxWord]) (.name "fill") = .error (.tokenOverflow "fill" "tank") ∧
      ¬ tankNet.NotEnabled (.ofCounts [1, maxWord]) (.name "fill") := by
  have hword : ∀ p n, (Marking.ofCounts [1, maxWord]).count p = .finite n → n ≤ maxWord := by
    rintro ⟨_ | _ | i⟩ n hn
    · obtain rfl := Token.finite.inj hn
      decide
    · exact (Token.finite.inj hn).ge
    · obtain rfl := Token.finite.inj hn
      exact Nat.zero_le _
  have hbuilt : tankNet.Built := built_ofScript _ _
  have hsize : (Marking.ofCounts [1, maxWord]).size = tankNet.placeCount := rfl
  have hfill : tankNet.transitionIndex "fill" = .ok ⟨0⟩ := rfl
  obtain ⟨hfiring, -, -, hnot, -⟩ := fire_exact hbuilt hsize hword hfill (.inl rfl)
  rw [hfiring, hnot]
  exact ⟨rfl, by decide⟩

end Net

end PetriNets
