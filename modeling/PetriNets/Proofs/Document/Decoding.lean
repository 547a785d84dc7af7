import PetriNets.Document.Net
import PetriNets.Document.System
import PetriNets.Proofs.Extensions

/-!
# Decoding what has been encoded

A reader `Inverts` a writer if it takes apart what the writer puts together. Then every document is decoded
to itself, over whatever format: a field that is written is found under its name, and where a field is left
out (no label, no initial state, no extensions) its default is what was left out. Counts have to fit in a
64-bit word, since no reader accepts a larger one.
-/

namespace PetriNets

variable {V : Type} {r : Reader V} {w : Writer V}

/-- The reader takes apart what the writer puts together. -/
structure Inverts (r : Reader V) (w : Writer V) : Prop where
  text : ∀ s, r.text? (w.text s) = some s
  natural : ∀ n, r.natural? (w.natural n) = some n
  present : ∀ s, r.option? (w.option (some (w.text s))) = some (some (w.text s))
  items : ∀ vs, r.items? (w.items vs) = some vs
  mapping : ∀ es, r.mapping? (w.mapping es) = some es
  record : ∀ type (fields : List String) {fs : List (String × V)}, (fs.map Prod.fst).Nodup →
    r.record? type fields (w.record type fs) = some (fields.map fun name => fs.lookup name)
  wrapped : ∀ type v, r.wrapped? type (w.wrapped type v) = some v
  bare : ∀ name, r.case? (w.case name none) = some (name, none)
  counted : ∀ name n, r.case? (w.case name (some (w.natural n))) = some (name, some (w.natural n))

/-- What the writer makes of the value is decoded to the value. -/
def Decodes {α : Type} [Documented α] (r : Reader V) (w : Writer V) (a : α) : Prop :=
  Documented.decode? r (Documented.encode w a) = some a

/-! ## Counts that fit in a word -/

def Token.FitsWord : Token → Prop
  | .finite n => n ≤ maxWord
  | .omega => True

def Marking.FitsWords (m : Marking) : Prop := ∀ t ∈ m.tokens, t.FitsWord

def ParikhVector.FitsWords (v : ParikhVector) : Prop := ∀ e ∈ v.entries, e.2 ≤ maxWord

structure NetDocument.FitsWords (d : NetDocument) : Prop where
  places : ∀ p ∈ d.places, p.tokens ≤ maxWord
  flows : ∀ f ∈ d.flows, f.weight ≤ maxWord

instance (t : Token) : Decidable t.FitsWord :=
  match t with
  | .finite n => inferInstanceAs (Decidable (n ≤ maxWord))
  | .omega => .isTrue trivial

instance (m : Marking) : Decidable m.FitsWords := inferInstanceAs (Decidable (∀ t ∈ m.tokens, t.FitsWord))

instance (v : ParikhVector) : Decidable v.FitsWords :=
  inferInstanceAs (Decidable (∀ e ∈ v.entries, e.2 ≤ maxWord))

instance (d : NetDocument) : Decidable d.FitsWords :=
  decidable_of_iff ((∀ p ∈ d.places, p.tokens ≤ maxWord) ∧ ∀ f ∈ d.flows, f.weight ≤ maxWord)
    ⟨fun h => ⟨h.1, h.2⟩, fun h => ⟨h.places, h.flows⟩⟩

/-! ## Lists and fields -/

theorem mapM_eq_some_map {α β : Type} {f : α → Option β} {g : α → β} {xs : List α}
    (h : ∀ x ∈ xs, f x = some (g x)) : xs.mapM f = some (xs.map g) := by
  induction xs with
  | nil => rfl
  | cons x xs ih =>
    obtain ⟨hx, hxs⟩ := List.forall_mem_cons.1 h
    rw [List.mapM_cons, hx, ih hxs]
    rfl

theorem mapM_map_eq_self {α β : Type} {f : α → β} {g : β → Option α} {xs : List α}
    (h : ∀ x ∈ xs, g (f x) = some x) : (xs.map f).mapM g = some xs := by
  rw [List.mapM_map]
  exact (mapM_eq_some_map h).trans (congrArg some (List.map_id' xs))

/-- The entry of a map under the same key, with its value read. -/
def keyed? {α : Type} (value? : V → Option α) (e : String × V) : Option (String × α) := do
  return (e.1, ← value? e.2)

theorem mapM_entries {α : Type} {value : α → V} {value? : V → Option α} {es : List (String × α)}
    (h : ∀ e ∈ es, value? (value e.2) = some e.2) :
    (es.map fun e => (e.1, value e.2)).mapM (keyed? value?) = some es := by
  refine mapM_map_eq_self fun e he => ?_
  unfold keyed?
  rw [h e he]
  rfl

/-- Under each of the keys there is at most one entry, the one that is looked up. -/
theorem filter_key_of_nodup {fs : List (String × V)} (h : (fs.map Prod.fst).Nodup) (name : String) :
    fs.filter (·.1 = name) = ((fs.lookup name).map (name, ·)).toList := by
  induction fs with
  | nil => rfl
  | cons f fs ih =>
    obtain ⟨k, v⟩ := f
    obtain ⟨hk, hfs⟩ := List.nodup_cons.1 h
    by_cases heq : k = name
    · subst heq
      have hnone : fs.filter (·.1 = k) = [] := by
        rw [List.filter_eq_nil_iff]
        intro f hf hkey
        have hf' : f.1 ∈ fs.map Prod.fst := List.mem_map_of_mem hf
        exact hk (of_decide_eq_true hkey ▸ hf')
      simp [hnone]
    · have hbeq : (name == k) = false := beq_false_of_ne (Ne.symm heq)
      simp [heq, List.lookup_cons, hbeq, ih hfs]

/-! ## Fields that may be left out -/

/-- A text that is written only if there is one. -/
def optionalField (w : Writer V) (name : String) (s : Option String) : List (String × V) :=
  s.toList.map fun s => (name, w.option (some (w.text s)))

/-- The fields of a transition in a document, up to its extensions. -/
def TransitionRecord.ownFields (w : Writer V) (t : TransitionRecord) : List (String × V) :=
  [("id", w.text t.id)] ++ optionalField w "label" t.label

/-- The fields of a transition system in a document, up to its extensions. -/
def SystemDocument.ownFields (w : Writer V) (d : SystemDocument) : List (String × V) :=
  [("name", w.text d.name), ("states", w.items (d.states.map (Documented.encode w))),
    ("arcs", w.items (d.arcs.map (Documented.encode w)))] ++ optionalField w "initial" d.initial

theorem keys_optionalField (name : String) (s : Option String) :
    (optionalField w name s).map Prod.fst = s.toList.map fun _ => name := by
  cases s <;> rfl

namespace Inverts

variable (h : Inverts r w)
include h

theorem word? {n : Nat} (hn : n ≤ maxWord) : r.word? (w.natural n) = some n := by
  unfold Reader.word?
  rw [h.natural, Option.filter_some, if_pos (decide_eq_true hn)]

theorem list? {α : Type} {item : α → V} {item? : V → Option α} {xs : List α}
    (hitem : ∀ x ∈ xs, item? (item x) = some x) : r.list? item? (w.items (xs.map item)) = some xs := by
  unfold Reader.list?
  rw [h.items]
  exact mapM_map_eq_self hitem

theorem optional? (s : String) :
    r.optional? r.text? (w.option (some (w.text s))) = some (some s) := by
  unfold Reader.optional?
  rw [h.present]
  dsimp only [Option.bind_eq_bind, Option.bind_some]
  rw [h.text]
  rfl

/-! ## Values -/

theorem decodes_token {t : Token} (ht : t.FitsWord) : Decodes r w t := by
  cases t with
  | omega =>
    show (r.case? (w.case "Omega" none)).bind _ = _
    rw [h.bare]
    rfl
  | finite n =>
    show (r.case? (w.case "Finite" (some (w.natural n)))).bind _ = _
    rw [h.counted, Option.bind_some]
    show (r.word? (w.natural n)).bind _ = _
    rw [h.word? ht]
    rfl

theorem decodes_marking {m : Marking} (hm : m.FitsWords) : Decodes r w m := by
  show (r.wrapped? "Marking" (w.wrapped "Marking" _)).bind _ = _
  rw [h.wrapped, Option.bind_some]
  show (r.list? _ (w.items (m.tokens.map (Documented.encode w)))).bind _ = _
  rw [h.list? fun t ht => h.decodes_token (hm t ht)]
  rfl

theorem decodes_orderedMap (m : OrderedMap String) : Decodes r w m := by
  show (r.mapping? (w.mapping (m.entries.map fun e => (e.1, w.text e.2)))).bind (fun es =>
    (es.mapM (keyed? r.text?)).bind fun es => some (OrderedMap.ofList es)) = some m
  rw [h.mapping, Option.bind_some, mapM_entries fun e _ => h.text e.2, Option.bind_some,
    OrderedMap.ofList_entries]

theorem decodes_parikhVector {v : ParikhVector} (hv : v.FitsWords) : Decodes r w v := by
  show (r.mapping? (w.mapping (v.entries.map fun e => (e.1, w.natural e.2)))).bind (fun es =>
    (es.mapM (keyed? r.word?)).bind fun es =>
      some (ParikhVector.mk (OrderedMap.ofList es))) = some v
  rw [h.mapping, Option.bind_some, mapM_entries fun e he => h.word? (hv e he), Option.bind_some]
  exact congrArg (some ∘ ParikhVector.mk) (OrderedMap.ofList_entries v.counts)

/-! ## Records

A record has its own fields and, if there are any, its extensions.
-/

theorem record?_extensionField (type : String) (names : List String) (fs : List (String × V))
    (hnodup : (fs.map Prod.fst).Nodup) (hfs : "extensions" ∉ fs.map Prod.fst)
    (hnames : "extensions" ∉ names) (m : OrderedMap String) :
    ∃ ext, extensions? r ext = some m ∧
      r.record? type (names ++ ["extensions"]) (w.record type (fs ++ extensionField w m)) =
        some (names.map (fun name => fs.lookup name) ++ [ext]) := by
  have hown : fs.lookup "extensions" = none := by
    rw [List.lookup_eq_none_iff]
    intro f hf
    have hmem : f.1 ∈ fs.map Prod.fst := List.mem_map_of_mem hf
    refine bne_iff_ne.2 fun heq => hfs ?_
    rwa [← heq] at hmem
  have hother : names.map (fun name => (fs ++ extensionField w m).lookup name) =
      names.map fun name => fs.lookup name := by
    refine List.map_congr_left fun name hname => ?_
    have hbeq : (name == "extensions") = false := beq_false_of_ne fun heq => hnames (heq ▸ hname)
    unfold extensionField
    split <;> simp [List.lookup_append, List.lookup_cons, hbeq]
  have hkeys : ((fs ++ extensionField w m).map Prod.fst).Nodup := by
    unfold extensionField
    split
    · rwa [List.append_nil]
    · rw [List.map_append, List.nodup_append]
      exact ⟨hnodup, List.pairwise_singleton _ _, fun k hk l hl heq => hfs (by simp_all)⟩
  -- no field of the record has this name, so what is found under it are the extensions, if any
  refine ⟨(fs ++ extensionField w m).lookup "extensions", ?_, ?_⟩
  · rw [List.lookup_append, hown]
    unfold extensionField extensions?
    split
    · next hempty => exact congrArg some (OrderedMap.ext (List.isEmpty_iff.1 hempty).symm)
    · exact h.decodes_orderedMap m
  · rw [h.record type _ hkeys, List.map_append, hother]
    rfl

theorem defaulted?_optionalField (name : String) (s : Option String) :
    defaulted? none (r.optional? r.text?) ((optionalField w name s).lookup name) = some s := by
  cases s with
  | none => rfl
  | some s =>
    have hlookup : (optionalField w name (some s)).lookup name = some (w.option (some (w.text s))) :=
      List.lookup_cons_self
    rw [hlookup]
    exact h.optional? s

/-! ## Nets -/

theorem decodes_placeRecord {p : PlaceRecord} (hp : p.tokens ≤ maxWord) : Decodes r w p := by
  obtain ⟨ext, hext, hrecord⟩ := h.record?_extensionField "PlaceDoc" ["id", "tokens"]
    [("id", w.text p.id), ("tokens", w.natural p.tokens)] (by simp) (by simp) (by decide) p.extensions
  show (r.record? "PlaceDoc" (["id", "tokens"] ++ ["extensions"]) (w.record _ (_ ++ _))).bind _ = _
  rw [hrecord]
  show (r.text? (w.text p.id)).bind (fun id => (r.word? (w.natural p.tokens)).bind fun tokens =>
    (extensions? r ext).bind fun ext => some (PlaceRecord.mk id tokens ext)) = some p
  rw [h.text, h.word? hp, hext]
  rfl

theorem decodes_transitionRecord (t : TransitionRecord) : Decodes r w t := by
  have hkeys : (t.ownFields w).map Prod.fst = "id" :: t.label.toList.map fun _ => "label" :=
    congrArg ("id" :: ·) (keys_optionalField "label" t.label)
  obtain ⟨ext, hext, hrecord⟩ := h.record?_extensionField "TransitionDoc" ["id", "label"] (t.ownFields w)
    (by rw [hkeys]; cases t.label <;> simp) (by rw [hkeys]; cases t.label <;> simp) (by decide)
    t.extensions
  show (r.record? "TransitionDoc" (["id", "label"] ++ ["extensions"]) (w.record _
    (t.ownFields w ++ _))).bind _ = _
  rw [hrecord]
  show (r.text? (w.text t.id)).bind (fun id =>
    (defaulted? none (r.optional? r.text?) ((optionalField w "label" t.label).lookup "label")).bind
      fun label => (extensions? r ext).bind fun ext => some (TransitionRecord.mk id label ext)) = some t
  rw [h.text, h.defaulted?_optionalField, hext]
  rfl

theorem decodes_flowRecord {f : FlowRecord} (hf : f.weight ≤ maxWord) : Decodes r w f := by
  obtain ⟨ext, hext, hrecord⟩ := h.record?_extensionField "FlowDoc" ["from", "to", "weight"]
    [("from", w.text f.source), ("to", w.text f.target), ("weight", w.natural f.weight)] (by simp) (by simp)
    (by decide) f.extensions
  show (r.record? "FlowDoc" (["from", "to", "weight"] ++ ["extensions"]) (w.record _ (_ ++ _))).bind _ = _
  rw [hrecord]
  show (r.text? (w.text f.source)).bind (fun source => (r.text? (w.text f.target)).bind fun target =>
    (r.word? (w.natural f.weight)).bind fun weight => (extensions? r ext).bind fun ext =>
      some (FlowRecord.mk source target weight ext)) = some f
  rw [h.text, h.text, h.word? hf, hext]
  rfl

theorem decodes_netDocument {d : NetDocument} (hd : d.FitsWords) : Decodes r w d := by
  obtain ⟨ext, hext, hrecord⟩ := h.record?_extensionField "NetDocument"
    ["name", "places", "transitions", "flows"]
    [("name", w.text d.name), ("places", w.items (d.places.map (Documented.encode w))),
      ("transitions", w.items (d.transitions.map (Documented.encode w))),
      ("flows", w.items (d.flows.map (Documented.encode w)))] (by simp) (by simp) (by decide) d.extensions
  show (r.record? "NetDocument" (["name", "places", "transitions", "flows"] ++ ["extensions"])
    (w.record _ (_ ++ _))).bind _ = _
  rw [hrecord]
  have hplaces := h.list? fun p hp => h.decodes_placeRecord (hd.places p hp)
  have htransitions := h.list? fun t (_ : t ∈ d.transitions) => h.decodes_transitionRecord t
  have hflows := h.list? fun f hf => h.decodes_flowRecord (hd.flows f hf)
  show (r.text? (w.text d.name)).bind (fun name =>
    (r.list? (Documented.decode? r) (w.items (d.places.map (Documented.encode w)))).bind fun places =>
    (r.list? (Documented.decode? r) (w.items (d.transitions.map (Documented.encode w)))).bind
      fun transitions =>
    (r.list? (Documented.decode? r) (w.items (d.flows.map (Documented.encode w)))).bind fun flows =>
    (extensions? r ext).bind fun ext => some (NetDocument.mk name places transitions flows ext)) = some d
  rw [h.text, hplaces, htransitions, hflows, hext]
  rfl

/-! ## Transition systems -/

theorem decodes_stateRecord (s : StateRecord) : Decodes r w s := by
  obtain ⟨ext, hext, hrecord⟩ := h.record?_extensionField "StateDoc" ["id"] [("id", w.text s.id)]
    (by simp) (by simp) (by decide) s.extensions
  show (r.record? "StateDoc" (["id"] ++ ["extensions"]) (w.record _ (_ ++ _))).bind _ = _
  rw [hrecord]
  show (r.text? (w.text s.id)).bind (fun id => (extensions? r ext).bind fun ext =>
    some (StateRecord.mk id ext)) = some s
  rw [h.text, hext]
  rfl

theorem decodes_arcRecord (a : ArcRecord) : Decodes r w a := by
  obtain ⟨ext, hext, hrecord⟩ := h.record?_extensionField "ArcDoc" ["from", "to", "label"]
    [("from", w.text a.source), ("to", w.text a.target), ("label", w.text a.label)] (by simp) (by simp)
    (by decide) a.extensions
  show (r.record? "ArcDoc" (["from", "to", "label"] ++ ["extensions"]) (w.record _ (_ ++ _))).bind _ = _
  rw [hrecord]
  show (r.text? (w.text a.source)).bind (fun source => (r.text? (w.text a.target)).bind fun target =>
    (r.text? (w.text a.label)).bind fun label => (extensions? r ext).bind fun ext =>
      some (ArcRecord.mk source target label ext)) = some a
  rw [h.text, h.text, h.text, hext]
  rfl

theorem decodes_systemDocument (d : SystemDocument) : Decodes r w d := by
  have hkeys : (d.ownFields w).map Prod.fst =
      ["name", "states", "arcs"] ++ d.initial.toList.map fun _ => "initial" :=
    congrArg (["name", "states", "arcs"] ++ ·) (keys_optionalField "initial" d.initial)
  obtain ⟨ext, hext, hrecord⟩ := h.record?_extensionField "TsDocument"
    ["name", "states", "arcs", "initial"] (d.ownFields w) (by rw [hkeys]; cases d.initial <;> simp)
    (by rw [hkeys]; cases d.initial <;> simp) (by decide) d.extensions
  show (r.record? "TsDocument" (["name", "states", "arcs", "initial"] ++ ["extensions"])
    (w.record _ (d.ownFields w ++ _))).bind _ = _
  rw [hrecord]
  have hstates := h.list? fun s (_ : s ∈ d.states) => h.decodes_stateRecord s
  have harcs := h.list? fun a (_ : a ∈ d.arcs) => h.decodes_arcRecord a
  show (r.text? (w.text d.name)).bind (fun name =>
    (r.list? (Documented.decode? r) (w.items (d.states.map (Documented.encode w)))).bind fun states =>
    (r.list? (Documented.decode? r) (w.items (d.arcs.map (Documented.encode w)))).bind fun arcs =>
    (defaulted? none (r.optional? r.text?) ((optionalField w "initial" d.initial).lookup "initial")).bind
      fun initial => (extensions? r ext).bind fun ext =>
        some (SystemDocument.mk name states arcs initial ext)) = some d
  rw [h.text, hstates, harcs, h.defaulted?_optionalField, hext]
  rfl

end Inverts

end PetriNets
