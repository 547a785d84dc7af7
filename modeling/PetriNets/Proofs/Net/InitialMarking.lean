import Mathlib.Data.Nat.Find
import PetriNets.Proofs.Net.Firing

/-!
# Setting the initial marking

The tokens of a net stand at its nodes, under their names, and a marking has them by number. A net
without its tokens (`Net.drained`) and its initial marking are together the net (`eq_of_drained_eq`).
Setting a marking writes one place after the other; this comes to giving every place that is named its
count at once (`foldl_modifyData_eq`), so that nothing but tokens changes (`drained_withTokens`), and as
the names come in the order of the numbers, each count gets to its own place
(`initialMarking_withTokens`). All counts are looked at before the first of them is written.
-/

namespace PetriNets

/-- The node with the tokens that a list has for it. -/
def Node.withTokens (counts : List (String × Nat)) (n : Node Element) : Node Element :=
  match counts.find? (·.1 = n.id) with
  | some e => { n with data := .place e.2 }
  | none => n

/-- The node, but no tokens on it. -/
def Node.drained (n : Node Element) : Node Element :=
  match n.data with
  | .place _ => { n with data := .place 0 }
  | .transition _ => n

/-- The tokens of a node that is a place. -/
def Node.tokens? (n : Node Element) : Option Nat := n.asPlace?.map Place.tokens

variable {n n' : Node Element} {counts : List (String × Nat)} {m : Marking}

@[simp] theorem Node.id_withTokens : (n.withTokens counts).id = n.id := by
  unfold withTokens
  split <;> rfl

/-- A node is known by what it is without its tokens, and by these. -/
theorem Node.eq_of_drained_eq (h : n.drained = n'.drained) (htokens : n.tokens? = n'.tokens?) :
    n = n' := by
  obtain ⟨id, data, ext⟩ := n
  obtain ⟨id', data', ext'⟩ := n'
  cases data <;> cases data' <;> simp_all [drained, tokens?, asPlace?]

theorem Node.isSome_tokens?_drained (n : Node Element) :
    n.drained.tokens?.isSome = n.tokens?.isSome := by
  obtain ⟨id, data, ext⟩ := n
  cases data <;> rfl

theorem Node.withTokens_of_mem (hnodup : (counts.map Prod.fst).Nodup) {tokens : Nat}
    (h : (n.id, tokens) ∈ counts) : n.withTokens counts = { n with data := .place tokens } := by
  unfold withTokens
  rw [(find?_key_eq_some_iff hnodup).2 ⟨h, rfl⟩]

theorem Node.withTokens_of_notMem (h : n.id ∉ counts.map Prod.fst) : n.withTokens counts = n := by
  have hnone : counts.find? (·.1 = n.id) = none := by
    refine List.find?_eq_none.2 fun e he heq => h ?_
    exact of_decide_eq_true heq ▸ List.mem_map_of_mem he
  unfold withTokens
  rw [hnone]

theorem Node.withTokens_cons {e : String × Nat} (he : e.1 ∉ counts.map Prod.fst) :
    (if n.id = e.1 then { n with data := .place e.2 } else n).withTokens counts =
      n.withTokens (e :: counts) := by
  by_cases hid : n.id = e.1
  · rw [if_pos hid, withTokens_of_notMem (n := { n with data := .place e.2 }) (hid ▸ he)]
    simp [withTokens, hid]
  · rw [if_neg hid]
    simp [withTokens, Ne.symm hid]

/-- Markings without `ω` are those that have been given by counts. -/
theorem Marking.hasOmega_eq_false_iff_ofCounts :
    m.hasOmega = false ↔ ∃ counts, m = .ofCounts counts := by
  refine ⟨fun h => ⟨m.tokens.map fun t => t.finite?.getD 0, ?_⟩, ?_⟩
  · unfold ofCounts
    rw [List.map_map]
    refine congrArg mk ((List.map_id _).symm.trans (List.map_congr_left fun t ht => ?_))
    cases t with
    | finite n => rfl
    | omega => exact absurd rfl (List.any_eq_false.1 h _ ht)
  · rintro ⟨counts, rfl⟩
    exact hasOmega_ofCounts counts

theorem Marking.exists_first_omega (h : m.hasOmega = true) :
    ∃ p, m.count p = .omega ∧ ∀ q : PlaceId, q.index < p.index → m.count q ≠ .omega := by
  obtain ⟨⟨i⟩, hp⟩ := hasOmega_iff.1 h
  have hsome : ∃ i, m.count ⟨i⟩ = .omega := ⟨i, hp⟩
  exact ⟨⟨Nat.find hsome⟩, Nat.find_spec hsome, fun q hq => Nat.find_min hsome hq⟩

namespace Net

variable {net net' : Net}

/-! ## Changing what nodes are -/

/-- The net with every node changed. -/
def mapNodes (f : Node Element → Node Element) (net : Net) : Net :=
  ⟨{ net.graph with slots := net.graph.slots.map fun s => { s with node := f s.node } }⟩

theorem mapNodes_mapNodes (f g : Node Element → Node Element) (net : Net) :
    (net.mapNodes f).mapNodes g = net.mapNodes (g ∘ f) := by
  unfold mapNodes
  dsimp only
  rw [List.map_map]
  rfl

theorem mapNodes_congr {f g : Node Element → Node Element}
    (h : ∀ n ∈ net.graph.nodes, f n = g n) : net.mapNodes f = net.mapNodes g := by
  have hslots : net.graph.slots.map (fun s => { s with node := f s.node }) =
      net.graph.slots.map fun s => { s with node := g s.node } :=
    List.map_congr_left fun s hs => by rw [h s.node (List.mem_map_of_mem hs)]
  unfold mapNodes
  rw [hslots]

theorem mapNodes_id (net : Net) : net.mapNodes id = net := by
  have hslots : net.graph.slots.map (fun s => { s with node := id s.node }) = net.graph.slots :=
    List.map_id _
  unfold mapNodes
  rw [hslots]

theorem nodes_mapNodes (f : Node Element → Node Element) (net : Net) :
    (net.mapNodes f).graph.nodes = net.graph.nodes.map f := by
  unfold mapNodes Graph.nodes
  rw [List.map_map, List.map_map]
  rfl

theorem modifyData_eq_mapNodes (net : Net) (id : String) (d : Element) :
    ⟨net.graph.modifyData id fun _ => d⟩ =
      net.mapNodes fun n => if n.id = id then { n with data := d } else n := by
  have hslots : (net.graph.modifyData id fun _ => d).slots = net.graph.slots.map fun s =>
      { s with node := if s.node.id = id then { s.node with data := d } else s.node } :=
    List.map_congr_left fun s _ => by split <;> rfl
  unfold mapNodes
  rw [← hslots]
  rfl

/-- The net with the tokens that a list has for its places. -/
def withTokens (net : Net) (counts : List (String × Nat)) : Net :=
  net.mapNodes (Node.withTokens counts)

/-- The net, but no tokens on it. -/
def drained (net : Net) : Net := net.mapNodes Node.drained

theorem placeIds_drained (net : Net) : net.drained.placeIds = net.placeIds := by
  refine (ids_of_nodes_map (nodes_mapNodes Node.drained net) fun n _ => ?_).1
  obtain ⟨v, data, ext⟩ := n
  cases data <;> exact ⟨rfl, rfl⟩

theorem transitions_drained (net : Net) : net.drained.transitions = net.transitions := by
  unfold transitions drained
  rw [nodes_mapNodes, List.filterMap_map]
  refine List.filterMap_congr fun n _ => ?_
  obtain ⟨v, data, ext⟩ := n
  cases data <;> rfl

theorem flows_drained (net : Net) : net.drained.flows = net.flows := rfl

/-! ## A net is its places and transitions and its tokens -/

theorem slots_eq_of_drained_eq {ss ss' : List (Slot Element)}
    (h : ss.map (fun s => { s with node := s.node.drained }) =
      ss'.map fun s => { s with node := s.node.drained })
    (htokens : (ss.map Slot.node).filterMap Node.tokens? =
      (ss'.map Slot.node).filterMap Node.tokens?) : ss = ss' := by
  induction ss generalizing ss' with
  | nil => exact (List.map_eq_nil_iff.1 h.symm).symm
  | cons s ss ih =>
    cases ss' with
    | nil => cases h
    | cons s' ss' =>
      obtain ⟨hhead, htail⟩ := List.cons.inj h
      obtain ⟨hnode, hincoming, houtgoing⟩ := Slot.mk.inj hhead
      rw [List.map_cons, List.map_cons, List.filterMap_cons, List.filterMap_cons] at htokens
      -- both are places or both are transitions, so the tokens of the others stand further on in both
      have hkind : s.node.tokens?.isSome = s'.node.tokens?.isSome := by
        rw [← Node.isSome_tokens?_drained, hnode, Node.isSome_tokens?_drained]
      have hsplit : s.node.tokens? = s'.node.tokens? ∧
          (ss.map Slot.node).filterMap Node.tokens? = (ss'.map Slot.node).filterMap Node.tokens? := by
        cases hs : s.node.tokens? <;> cases hs' : s'.node.tokens? <;> simp_all
      have hnode : s.node = s'.node := Node.eq_of_drained_eq hnode hsplit.1
      have hsame : s = s' := by
        cases s
        cases s'
        simp_all
      rw [hsame, ih htail hsplit.2]

theorem initialMarking_eq (net : Net) :
    net.initialMarking = .ofCounts (net.graph.nodes.filterMap Node.tokens?) := by
  unfold initialMarking places
  rw [List.map_filterMap]
  rfl

/-- A net is known by what it is without its tokens, and by its initial marking. -/
theorem eq_of_drained_eq (h : net.drained = net'.drained)
    (hmarking : net.initialMarking = net'.initialMarking) : net = net' := by
  obtain ⟨name, ext, slots, edges⟩ := net
  obtain ⟨name', ext', slots', edges'⟩ := net'
  unfold drained mapNodes at h
  simp only [mk.injEq, Graph.mk.injEq] at h
  obtain ⟨rfl, rfl, hslots, rfl⟩ := h
  rw [initialMarking_eq, initialMarking_eq] at hmarking
  have htokens : (slots.map Slot.node).filterMap Node.tokens? =
      (slots'.map Slot.node).filterMap Node.tokens? :=
    List.map_injective_iff.2 (fun _ _ => Token.finite.inj) (congrArg Marking.tokens hmarking)
  rw [slots_eq_of_drained_eq hslots htokens]

/-! ## Writing the counts -/

/-- Changing the tokens of places one after the other comes to giving each place its own at once. -/
theorem foldl_modifyData_eq (hnodup : (counts.map Prod.fst).Nodup) :
    counts.foldl (fun net e => ⟨net.graph.modifyData e.1 fun _ => .place e.2⟩) net =
      net.withTokens counts := by
  induction counts generalizing net with
  | nil => exact (mapNodes_id net).symm
  | cons e counts ih =>
    obtain ⟨he, hnodup⟩ := List.nodup_cons.1 hnodup
    rw [List.foldl_cons, ih hnodup, modifyData_eq_mapNodes]
    unfold withTokens
    rw [mapNodes_mapNodes]
    exact mapNodes_congr fun n _ => Node.withTokens_cons he

section Places

variable (h : net.WellFormed)
include h

/-- Where only places are given tokens, nothing but tokens changes. -/
theorem drained_withTokens (hplaces : ∀ e ∈ counts, e.1 ∈ net.placeIds) :
    (net.withTokens counts).drained = net.drained := by
  unfold drained withTokens
  rw [mapNodes_mapNodes]
  refine mapNodes_congr fun n hn => ?_
  rw [Function.comp_apply]
  by_cases hid : n.id ∈ counts.map Prod.fst
  · obtain ⟨e, he, heq⟩ := List.mem_map.1 hid
    have hplace := isPlace_of_mem_placeIds h (heq ▸ hplaces e he) n hn rfl
    obtain ⟨v, data, ext⟩ := n
    cases data with
    | place k =>
      unfold Node.withTokens
      split <;> rfl
    | transition label => cases hplace
  · rw [Node.withTokens_of_notMem hid]

theorem placeIds_withTokens (hplaces : ∀ e ∈ counts, e.1 ∈ net.placeIds) :
    (net.withTokens counts).placeIds = net.placeIds := by
  rw [← placeIds_drained, drained_withTokens h hplaces, placeIds_drained]

/-- Every place gets the count that stands at its number. -/
theorem initialMarking_withTokens {tokens : List Nat} (hlength : tokens.length = net.placeCount) :
    (net.withTokens (net.placeIds.zip tokens)).initialMarking = .ofCounts tokens := by
  have hids := placeIds_withTokens h fun e (he : e ∈ net.placeIds.zip tokens) => (List.of_mem_zip he).1
  have hnodup : ((net.placeIds.zip tokens).map Prod.fst).Nodup := by
    rw [List.map_fst_zip (by rw [length_placeIds, hlength])]
    exact nodup_placeIds h
  have hcount : (net.withTokens (net.placeIds.zip tokens)).placeCount = net.placeCount := by
    rw [← length_placeIds, hids, length_placeIds]
  refine congrArg Marking.ofCounts (List.ext_getElem ?_ fun i hi hi' => ?_)
  · rw [List.length_map]
    exact hcount.trans hlength.symm
  · rw [List.length_map] at hi
    rw [List.getElem_map]
    generalize hp : (net.withTokens (net.placeIds.zip tokens)).places[i] = p
    -- before it was given its count, the place was a node of the same name
    obtain ⟨_, hn, hplace⟩ := List.mem_filterMap.1 (List.mem_of_getElem hp)
    obtain rfl := Node.asPlace?_eq_some_iff.1 hplace
    rw [withTokens, nodes_mapNodes] at hn
    obtain ⟨n, -, hnode⟩ := List.mem_map.1 hn
    have hid : n.id = p.id := Node.id_withTokens.symm.trans (congrArg Node.id hnode)
    have hname : net.placeIds[i]? = some n.id := by
      rw [← hids, hid, ← hp, List.getElem?_eq_getElem (by rwa [length_placeIds])]
      exact congrArg some (List.getElem_map _)
    have hmem : (n.id, tokens[i]) ∈ net.placeIds.zip tokens := by
      refine List.mem_of_getElem? (i := i) ?_
      rw [List.getElem?_zip_eq_some]
      exact ⟨hname, List.getElem?_eq_getElem hi'⟩
    rw [Node.withTokens_of_mem hnodup hmem] at hnode
    exact (Element.place.inj (congrArg Node.data hnode)).symm

theorem setInitialMarking_ofCounts {tokens : List Nat} (hlength : tokens.length = net.placeCount) :
    net.setInitialMarking (.ofCounts tokens) = .ok (net.withTokens (net.placeIds.zip tokens)) := by
  have hnodup : ((net.placeIds.zip tokens).map Prod.fst).Nodup := by
    rw [List.map_fst_zip (by rw [length_placeIds, hlength])]
    exact nodup_placeIds h
  have hcounts : (net.placeIds.zip (Marking.ofCounts tokens).tokens).mapM IndexedNet.countOf =
      .ok (net.placeIds.zip tokens) := by
    show (net.placeIds.zip (tokens.map Token.finite)).mapM IndexedNet.countOf = _
    rw [List.zip_map_right, List.mapM_map]
    exact List.mapM_pure.trans (congrArg Except.ok (List.map_id _))
  refine bind_eq_ok_iff.2 ⟨(), checkMarking_eq_ok_iff.2 ?_, ?_⟩
  · exact (List.length_map _).trans hlength
  · exact bind_eq_ok_iff.2 ⟨_, hcounts, congrArg Except.ok (foldl_modifyData_eq hnodup)⟩

omit h in
/-- Nothing is written if some place is to hold `ω`. -/
theorem setInitialMarking_eq_omegaToken {p : PlaceId} (hsize : m.size = net.placeCount)
    (hp : m.count p = .omega) (hfirst : ∀ q : PlaceId, q.index < p.index → m.count q ≠ .omega) :
    net.setInitialMarking m = .error (.omegaToken (net.placeName p)) := by
  have hget : ∀ q : PlaceId, q.index < m.size →
      (net.placeIds.zip m.tokens)[q.index]? = some (net.placeName q, m.count q) := by
    intro q hq
    rw [List.getElem?_zip_eq_some]
    exact ⟨placeIds_getElem? (hsize ▸ hq), Marking.tokens_getElem? hq⟩
  have hlt : p.index < m.size := Marking.index_lt_of_count_ne_zero (by rw [hp]; nofun)
  have hcounts : (net.placeIds.zip m.tokens).mapM IndexedNet.countOf =
      .error (.omegaToken (net.placeName p)) := by
    refine mapM_eq_error_of_first (hget p hlt) (by rw [hp]; rfl) fun i hi e he => ?_
    obtain rfl := Option.some.inj ((hget ⟨i⟩ (hi.trans hlt)).symm.trans he)
    cases hcount : m.count ⟨i⟩ with
    | finite k => exact ⟨_, rfl⟩
    | omega => exact absurd hcount (hfirst ⟨i⟩ hi)
  unfold setInitialMarking
  rw [checkMarking_eq_ok_iff (u := ()) |>.2 hsize]
  show ((net.placeIds.zip m.tokens).mapM IndexedNet.countOf >>= _) = _
  rw [hcounts]
  rfl

omit h in
theorem setInitialMarking_eq_markingMismatch (hsize : m.size ≠ net.placeCount) :
    net.setInitialMarking m = .error (.markingMismatch net.placeCount m.size) := by
  unfold setInitialMarking checkMarking
  rw [if_neg hsize]
  rfl

/-- A marking can be set just if it has a count for each place. -/
theorem setInitialMarking_eq_ok_iff : net.setInitialMarking m = .ok net' ↔
    ∃ tokens, m = .ofCounts tokens ∧ tokens.length = net.placeCount ∧
      net' = net.withTokens (net.placeIds.zip tokens) := by
  refine ⟨fun hcall => ?_, ?_⟩
  · by_cases hsize : m.size = net.placeCount
    · cases homega : m.hasOmega with
      | false =>
        obtain ⟨tokens, rfl⟩ := Marking.hasOmega_eq_false_iff_ofCounts.1 homega
        have hlength : tokens.length = net.placeCount := (List.length_map _).symm.trans hsize
        rw [setInitialMarking_ofCounts h hlength] at hcall
        exact ⟨tokens, rfl, hlength, (Except.ok.inj hcall).symm⟩
      | true =>
        obtain ⟨p, hp, hfirst⟩ := Marking.exists_first_omega homega
        rw [setInitialMarking_eq_omegaToken hsize hp hfirst] at hcall
        cases hcall
    · rw [setInitialMarking_eq_markingMismatch hsize] at hcall
      cases hcall
  · rintro ⟨tokens, rfl, hlength, rfl⟩
    exact setInitialMarking_ofCounts h hlength

theorem initialMarking_of_setInitialMarking (hcall : net.setInitialMarking m = .ok net') :
    net'.initialMarking = m := by
  obtain ⟨tokens, rfl, hlength, rfl⟩ := (setInitialMarking_eq_ok_iff h).1 hcall
  exact initialMarking_withTokens h hlength

theorem drained_of_setInitialMarking (hcall : net.setInitialMarking m = .ok net') :
    net'.drained = net.drained := by
  obtain ⟨tokens, -, -, rfl⟩ := (setInitialMarking_eq_ok_iff h).1 hcall
  exact drained_withTokens h fun e he => (List.of_mem_zip he).1

/-- A net that differs in its tokens alone comes of setting its marking. -/
theorem setInitialMarking_of_drained_eq (hdrained : net'.drained = net.drained) :
    net.setInitialMarking net'.initialMarking = .ok net' := by
  have hids : net'.placeIds = net.placeIds := by
    rw [← placeIds_drained, hdrained, placeIds_drained]
  have hlength : (net'.places.map Place.tokens).length = net.placeCount := by
    rw [List.length_map, ← length_placeIds, ← hids]
    exact (List.length_map _).symm
  obtain ⟨net'', hcall⟩ : ∃ net'', net.setInitialMarking net'.initialMarking = .ok net'' :=
    ⟨_, setInitialMarking_ofCounts h hlength⟩
  have hsame : net'' = net' := eq_of_drained_eq
    ((drained_of_setInitialMarking h hcall).trans hdrained.symm)
    (initialMarking_of_setInitialMarking h hcall)
  exact hsame ▸ hcall

end Places

/-- Setting the initial marking is done entirely or not at all. It is done if the marking has one count
for each place, and no `ω`. The net then has this initial marking and is as it was but for its tokens, so
setting the marking it had before gives back the net; and setting the marking that it has changes nothing.
Otherwise the call is refused, first for the size of the marking, and then for the first place that is to
hold `ω`, and leaves the net with its tables as it was. -/
theorem setInitialMarking_exact (h : net.Built) (m : Marking) :
    ((∃ net', net.setInitialMarking m = .ok net') ↔
      m.size = net.placeCount ∧ m.hasOmega = false) ∧
    (∀ net', net.setInitialMarking m = .ok net' →
      IndexedNet.setInitialMarking m net.indexed = .ok () net'.indexed ∧
      net'.initialMarking = m ∧ net'.drained = net.drained ∧ net'.placeIds = net.placeIds ∧
      net'.transitions = net.transitions ∧ net'.flows = net.flows ∧
      net'.setInitialMarking net.initialMarking = .ok net) ∧
    net.setInitialMarking net.initialMarking = .ok net ∧
    (m.size ≠ net.placeCount → IndexedNet.setInitialMarking m net.indexed =
      .error (.markingMismatch net.placeCount m.size) net.indexed) ∧
    ∀ p, m.size = net.placeCount → m.count p = .omega →
      (∀ q : PlaceId, q.index < p.index → m.count q ≠ .omega) →
      IndexedNet.setInitialMarking m net.indexed =
        .error (.omegaToken (net.placeName p)) net.indexed := by
  have hwell := h.wellFormed
  rw [IndexedNet.setInitialMarking_indexed hwell]
  refine ⟨⟨?_, ?_⟩, fun net' hcall => ?_, setInitialMarking_of_drained_eq hwell rfl, fun hsize => ?_,
    fun p hsize hp hfirst => ?_⟩
  · rintro ⟨net', hcall⟩
    obtain ⟨tokens, rfl, hlength, -⟩ := (setInitialMarking_eq_ok_iff hwell).1 hcall
    exact ⟨(List.length_map _).trans hlength, Marking.hasOmega_ofCounts tokens⟩
  · rintro ⟨hsize, homega⟩
    obtain ⟨tokens, rfl⟩ := Marking.hasOmega_eq_false_iff_ofCounts.1 homega
    exact ⟨_, setInitialMarking_ofCounts hwell ((List.length_map _).symm.trans hsize)⟩
  · have hdrained := drained_of_setInitialMarking hwell hcall
    refine ⟨by rw [hcall]; rfl, initialMarking_of_setInitialMarking hwell hcall, hdrained, ?_, ?_, ?_,
      setInitialMarking_of_drained_eq (h.setInitialMarking hcall).wellFormed hdrained.symm⟩
    · rw [← placeIds_drained, hdrained, placeIds_drained]
    · rw [← transitions_drained, hdrained, transitions_drained]
    · rw [← flows_drained, hdrained, flows_drained]
  · rw [setInitialMarking_eq_markingMismatch hsize]
    rfl
  · rw [setInitialMarking_eq_omegaToken hsize hp hfirst]
    rfl

/-- The tokens of a tank and its valve are set and set back, and no `ω` comes to either. -/
theorem setInitialMarking_exact_tankNet :
    (∃ net', tankNet.setInitialMarking (.ofCounts [3, 7]) = .ok net' ∧
      net'.initialMarking = .ofCounts [3, 7] ∧
      net'.setInitialMarking tankNet.initialMarking = .ok tankNet) ∧
    IndexedNet.setInitialMarking (.ofCounts [3]) tankNet.indexed =
      .error (.markingMismatch 2 1) tankNet.indexed ∧
    IndexedNet.setInitialMarking ⟨[.finite 3, .omega]⟩ tankNet.indexed =
      .error (.omegaToken "tank") tankNet.indexed := by
  have hbuilt : tankNet.Built := built_ofScript _ _
  refine ⟨?_, ?_, ?_⟩
  · have hexact := setInitialMarking_exact hbuilt (.ofCounts [3, 7])
    obtain ⟨net', hcall⟩ := hexact.1.2 ⟨rfl, rfl⟩
    obtain ⟨-, hmarking, -, -, -, -, hback⟩ := hexact.2.1 net' hcall
    exact ⟨net', hcall, hmarking, hback⟩
  · exact (setInitialMarking_exact hbuilt (.ofCounts [3])).2.2.2.1 (by decide)
  · refine (setInitialMarking_exact hbuilt ⟨[.finite 3, .omega]⟩).2.2.2.2 ⟨1⟩ rfl rfl fun q hq => ?_
    obtain ⟨i⟩ := q
    obtain rfl : i = 0 := by change i < 1 at hq; omega
    nofun

end Net

end PetriNets
