import PetriNets.Proofs.Document.Decoding
import PetriNets.Proofs.Format.Json
import PetriNets.Proofs.Format.Ron.Values

/-!
# Documents as text

A document that is written as text and read again is the one that was written, in JSON
(`Json.read?_write_json`) and in RON (`Ron.read?_write_ron`). Two things are needed of a format: that its
reader inverts its writer, so that the value of a document is decoded to the document (`Inverts`), and that
the text of this value is read back as the value. In JSON every value is read back. In RON a value may be
nested only so deep and names of fields have to be plain ones, so the values of documents are shown to be
`Legible`: eight levels are enough for all of them.
-/

namespace PetriNets

variable {V : Type}

/-- A text is read back if the value on it is read back, with a reader by which the value decodes. -/
theorem Format.read?_write_of_decodes {f : Format V} {r : Reader V} {α : Type} [Documented α] {a : α}
    (hparse : f.parse? (f.print (Documented.encode f.writer a)) = some (r, Documented.encode f.writer a))
    (hdecodes : Decodes r f.writer a) : f.read? (f.write a) = some a := by
  unfold Format.read? Format.write
  rw [hparse]
  exact hdecodes

/-! ## Examples

Names with quotes, backslashes, line breaks and characters beyond the ASCII ones, the highest count of a word,
and fields both left out and written.
-/

/-- A net whose flows carry as many tokens as there can be. -/
def floodDocument : NetDocument where
  name := "the \"flood\"\n\\"
  places := [⟨"", maxWord, .ofList [("unit", "m³"), ("\x00", "")]⟩, ⟨"sea", 0, ∅⟩]
  transitions := [⟨"rain", some "\t↯ \u00a0😀", ∅⟩, ⟨"None", none, .ofList [("Some", "/")]⟩]
  flows := [⟨"rain", "", maxWord, ∅⟩, ⟨"sea", "None", 1, .ofList [("r#", "\r")]⟩]
  extensions := .ofList [("tide", "\x7f\u2028")]

/-- A transition system with an empty label and an initial state. -/
def lampDocument : SystemDocument where
  name := "lamp"
  states := [⟨"on", .ofList [("colour", "\"red\"")]⟩, ⟨"off\n", ∅⟩]
  arcs := [⟨"on", "off\n", "", ∅⟩, ⟨"on", "off\n", "\"click\"", .ofList [("\\u", "\x7b\x7d")]⟩]
  initial := some "off\n"
  extensions := ∅

def floodMarking : Marking := ⟨[.omega, .finite maxWord, .finite 0]⟩

def floodVector : ParikhVector := ⟨.ofList [("rain", maxWord), ("", 1)]⟩

theorem fitsWords_flood :
    floodDocument.FitsWords ∧ floodMarking.FitsWords ∧ floodVector.FitsWords := by decide

/-! ## JSON -/

namespace Json

theorem members_map (ms : List (String × Json)) : members (ms.map fun m => (some m.1, m.2)) = some ms :=
  mapM_map_eq_self fun _ _ => rfl

theorem field?_of_nodup {ms : List (String × Json)} (h : (ms.map Prod.fst).Nodup) (name : String) :
    field? ms name = some (ms.lookup name) := by
  unfold field?
  rw [filter_key_of_nodup h]
  cases ms.lookup name <;> rfl

theorem inverts : Inverts reader writer where
  text _ := rfl
  natural _ := rfl
  present _ := rfl
  items _ := rfl
  mapping := members_map
  record _ fields fs h := by
    show (members (fs.map fun m => (some m.1, m.2))).bind (fun ms => fields.mapM (field? ms)) = _
    rw [members_map, Option.bind_some]
    exact mapM_eq_some_map fun name _ => field?_of_nodup h name
  wrapped _ _ := rfl
  bare _ := rfl
  counted _ _ := rfl

theorem read?_write_of_decodes {α : Type} [Documented α] {a : α} (h : Decodes reader writer a) :
    format.read? (format.write a) = some a :=
  Format.read?_write_of_decodes (congrArg (Option.map (reader, ·)) (parse?_print _)) h

/-- Nets, transition systems, markings and Parikh vectors are read back from their JSON texts, whatever
their texts consist of, as long as their counts fit in a word. -/
theorem read?_write_json :
    (∀ d : NetDocument, d.FitsWords → format.read? (format.write d) = some d) ∧
    (∀ d : SystemDocument, format.read? (format.write d) = some d) ∧
    (∀ m : Marking, m.FitsWords → format.read? (format.write m) = some m) ∧
    (∀ v : ParikhVector, v.FitsWords → format.read? (format.write v) = some v) :=
  ⟨fun _ hd => read?_write_of_decodes (inverts.decodes_netDocument hd),
    fun d => read?_write_of_decodes (inverts.decodes_systemDocument d),
    fun _ hm => read?_write_of_decodes (inverts.decodes_marking hm),
    fun _ hv => read?_write_of_decodes (inverts.decodes_parikhVector hv)⟩

theorem read?_write_json_flood :
    (floodDocument.FitsWords ∧ format.read? (format.write floodDocument) = some floodDocument) ∧
    format.read? (format.write lampDocument) = some lampDocument ∧
    (floodMarking.FitsWords ∧ format.read? (format.write floodMarking) = some floodMarking) ∧
    (floodVector.FitsWords ∧ format.read? (format.write floodVector) = some floodVector) := by
  obtain ⟨hdocument, hmarking, hvector⟩ := fitsWords_flood
  obtain ⟨hnets, hsystems, hmarkings, hvectors⟩ := read?_write_json
  exact ⟨⟨hdocument, hnets _ hdocument⟩, hsystems _, ⟨hmarking, hmarkings _ hmarking⟩,
    ⟨hvector, hvectors _ hvector⟩⟩

end Json

/-! ## RON -/

namespace Ron

variable {depth : Nat} {type : String} {fs : List (String × Ron)}

theorem field?_of_nodup (h : (fs.map Prod.fst).Nodup) (name : String) :
    field? fs name = some (fs.lookup name) := by
  unfold field?
  rw [filter_key_of_nodup h]
  cases fs.lookup name <;> rfl

theorem inverts : Inverts (reader .off) writer where
  text _ := rfl
  natural _ := rfl
  present _ := rfl
  items _ := rfl
  mapping _ := mapM_map_eq_self fun _ _ => rfl
  record _ _ _ h := mapM_eq_some_map fun name _ => field?_of_nodup h name
  wrapped _ _ := rfl
  bare _ := rfl
  counted _ _ := rfl

/-! ### Documents are legible -/

theorem legible_items {α : Type} {item : α → Ron} {xs : List α} (h : ∀ x ∈ xs, Legible depth (item x)) :
    Legible (depth + 2) (writer.items (xs.map item)) := legible_list (List.forall_mem_map.2 h)

theorem legible_mapping {α : Type} {value : α → Ron} {es : List (String × α)}
    (h : ∀ e ∈ es, Legible depth (value e.2)) :
    Legible (depth + 2) (writer.mapping (es.map fun e => (e.1, value e.2))) := by
  refine legible_map ?_
  rw [List.forall_mem_map, List.forall_mem_map]
  exact fun e he => ⟨legible_text depth e.1, h e he⟩

theorem legible_orderedMap (m : OrderedMap String) : Legible (depth + 2) (Documented.encode writer m) :=
  legible_mapping fun e _ => legible_text depth e.2

theorem legible_parikhVector (v : ParikhVector) : Legible (depth + 2) (Documented.encode writer v) :=
  legible_mapping fun e _ => legible_natural depth e.2

theorem legible_token (t : Token) : Legible (depth + 2) (Documented.encode writer t) := by
  cases t with
  | finite n =>
    exact legible_case (by decide) (by decide) (by decide) (legible_natural depth n) (unnamed_natural n)
  | omega => exact legible_word (depth + 2) (by decide) (by decide)

theorem legible_marking (m : Marking) : Legible (depth + 6) (Documented.encode writer m) :=
  legible_wrapped (legible_items fun t _ => legible_token t) (unnamed_list _)

/-- The fields of a record may be followed by its extensions. -/
theorem legible_extended (hne : fs ≠ []) (h : ∀ f ∈ fs, LegibleField (depth + 2) f)
    (m : OrderedMap String) :
    Legible (depth + 4) (writer.record type (fs ++ extensionField writer m)) := by
  refine legible_record (List.append_ne_nil_of_left_ne_nil hne _) fun f hf => ?_
  rcases List.mem_append.1 hf with hf | hf
  · exact h f hf
  · unfold extensionField at hf
    split at hf
    · exact absurd hf List.not_mem_nil
    · rw [List.mem_singleton.1 hf]
      exact legibleField (by decide) (legible_orderedMap m)

theorem legibleField_optional (name : String) (hname : isPlain name = true) (s : Option String) :
    ∀ f ∈ optionalField writer name s, LegibleField (depth + 1) f := by
  cases s with
  | none => exact fun _ hf => absurd hf List.not_mem_nil
  | some s =>
    intro f hf
    rw [List.mem_singleton.1 hf]
    exact legibleField hname (legible_some (legible_text depth s))

theorem legible_placeRecord (p : PlaceRecord) : Legible (depth + 4) (Documented.encode writer p) := by
  refine legible_extended (List.cons_ne_nil _ _) ?_ p.extensions
  rw [List.forall_mem_cons, List.forall_mem_singleton]
  exact ⟨legibleField (by decide) (legible_text _ _), legibleField (by decide) (legible_natural _ _)⟩

theorem legible_transitionRecord (t : TransitionRecord) :
    Legible (depth + 4) (Documented.encode writer t) := by
  have hown : ∀ f ∈ t.ownFields writer, LegibleField (depth + 2) f := by
    refine List.forall_mem_append.2 ⟨?_, legibleField_optional "label" (by decide) t.label⟩
    rw [List.forall_mem_singleton]
    exact legibleField (by decide) (legible_text _ _)
  exact legible_extended (List.cons_ne_nil _ _) hown t.extensions

theorem legible_flowRecord (f : FlowRecord) : Legible (depth + 4) (Documented.encode writer f) := by
  refine legible_extended (List.cons_ne_nil _ _) ?_ f.extensions
  rw [List.forall_mem_cons, List.forall_mem_cons, List.forall_mem_singleton]
  exact ⟨legibleField (by decide) (legible_text _ _), legibleField (by decide) (legible_text _ _),
    legibleField (by decide) (legible_natural _ _)⟩

theorem legible_netDocument (d : NetDocument) : Legible (depth + 8) (Documented.encode writer d) := by
  refine legible_extended (List.cons_ne_nil _ _) ?_ d.extensions
  rw [List.forall_mem_cons, List.forall_mem_cons, List.forall_mem_cons, List.forall_mem_singleton]
  exact ⟨legibleField (by decide) (legible_text _ _),
    legibleField (by decide) (legible_items fun p _ => legible_placeRecord p),
    legibleField (by decide) (legible_items fun t _ => legible_transitionRecord t),
    legibleField (by decide) (legible_items fun f _ => legible_flowRecord f)⟩

theorem legible_stateRecord (s : StateRecord) : Legible (depth + 4) (Documented.encode writer s) := by
  refine legible_extended (List.cons_ne_nil _ _) ?_ s.extensions
  rw [List.forall_mem_singleton]
  exact legibleField (by decide) (legible_text _ _)

theorem legible_arcRecord (a : ArcRecord) : Legible (depth + 4) (Documented.encode writer a) := by
  refine legible_extended (List.cons_ne_nil _ _) ?_ a.extensions
  rw [List.forall_mem_cons, List.forall_mem_cons, List.forall_mem_singleton]
  exact ⟨legibleField (by decide) (legible_text _ _), legibleField (by decide) (legible_text _ _),
    legibleField (by decide) (legible_text _ _)⟩

theorem legible_systemDocument (d : SystemDocument) : Legible (depth + 8) (Documented.encode writer d) := by
  have hown : ∀ f ∈ d.ownFields writer, LegibleField (depth + 6) f := by
    refine List.forall_mem_append.2 ⟨?_, legibleField_optional "initial" (by decide) d.initial⟩
    rw [List.forall_mem_cons, List.forall_mem_cons, List.forall_mem_singleton]
    exact ⟨legibleField (by decide) (legible_text _ _),
      legibleField (by decide) (legible_items fun s _ => legible_stateRecord s),
      legibleField (by decide) (legible_items fun a _ => legible_arcRecord a)⟩
  exact legible_extended (List.cons_ne_nil _ _) hown d.extensions

theorem read?_write_of_legible {α : Type} [Documented α] {a : α}
    (hlegible : Legible maxDepth (Documented.encode writer a)) (h : Decodes (reader .off) writer a) :
    format.read? (format.write a) = some a :=
  Format.read?_write_of_decodes
    (congrArg (Option.map fun p : Switches × Ron => (reader p.1, p.2)) (parse?_print hlegible)) h

/-- Nets, transition systems, markings and Parikh vectors are read back from their RON texts, whatever
their texts consist of, as long as their counts fit in a word. -/
theorem read?_write_ron :
    (∀ d : NetDocument, d.FitsWords → format.read? (format.write d) = some d) ∧
    (∀ d : SystemDocument, format.read? (format.write d) = some d) ∧
    (∀ m : Marking, m.FitsWords → format.read? (format.write m) = some m) ∧
    (∀ v : ParikhVector, v.FitsWords → format.read? (format.write v) = some v) :=
  ⟨fun d hd => read?_write_of_legible (legible_netDocument d) (inverts.decodes_netDocument hd),
    fun d => read?_write_of_legible (legible_systemDocument d) (inverts.decodes_systemDocument d),
    fun m hm => read?_write_of_legible (legible_marking m) (inverts.decodes_marking hm),
    fun v hv => read?_write_of_legible (legible_parikhVector v) (inverts.decodes_parikhVector hv)⟩

theorem read?_write_ron_flood :
    (floodDocument.FitsWords ∧ format.read? (format.write floodDocument) = some floodDocument) ∧
    format.read? (format.write lampDocument) = some lampDocument ∧
    (floodMarking.FitsWords ∧ format.read? (format.write floodMarking) = some floodMarking) ∧
    (floodVector.FitsWords ∧ format.read? (format.write floodVector) = some floodVector) := by
  obtain ⟨hdocument, hmarking, hvector⟩ := fitsWords_flood
  obtain ⟨hnets, hsystems, hmarkings, hvectors⟩ := read?_write_ron
  exact ⟨⟨hdocument, hnets _ hdocument⟩, hsystems _, ⟨hmarking, hmarkings _ hmarking⟩,
    ⟨hvector, hvectors _ hvector⟩⟩

end Ron

end PetriNets
