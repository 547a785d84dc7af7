import PetriNets.Marking
import PetriNets.Text.Quoted

/-!
# Extension tables

Nets, places, transitions, flows, states and arcs carry named values that the theory does not look
at. Each entry has a policy: whether a copy of its owner takes it along, and whether a document of
its owner writes it out. A table keeps its entries in the order in which their keys came, and has one
entry for each key; that no key comes twice is part of the type.
-/

namespace PetriNets

/-- How an entry goes along with its owner. -/
inductive ExtensionPolicy where
  /-- Copies take it, documents do not. -/
  | copy
  /-- Neither copies nor documents take it. -/
  | noCopy
  /-- Both copies and documents take it. -/
  | persist
  /-- Documents take it, copies do not. -/
  | persistOnly
deriving DecidableEq

namespace ExtensionPolicy

/-- Whether a copy of the owner takes the entry along. -/
def copies : ExtensionPolicy → Bool
  | copy | persist => true
  | noCopy | persistOnly => false

/-- Whether a document of the owner writes the entry out. -/
def persists : ExtensionPolicy → Bool
  | persist | persistOnly => true
  | copy | noCopy => false

/-- The policy's name. -/
def text : ExtensionPolicy → String
  | copy => "Copy"
  | noCopy => "NoCopy"
  | persist => "Persist"
  | persistOnly => "PersistOnly"

end ExtensionPolicy

/-- What an entry may hold. -/
inductive ExtensionValue where
  | text (value : String)
  | number (value : Int)
  | flag (value : Bool)
  | numbers (value : List Int)
  | marking (value : Marking)
deriving DecidableEq

/-- The type of a value. -/
inductive ExtensionType where
  | text | number | flag | numbers | marking
deriving DecidableEq

namespace ExtensionValue

/-- The type of the value. -/
def type : ExtensionValue → ExtensionType
  | text _ => .text
  | number _ => .number
  | flag _ => .flag
  | numbers _ => .numbers
  | marking _ => .marking

/-- The value as it is shown inside other text: a text is quoted. -/
def shown : ExtensionValue → String
  | text s => Text.quoted s
  | number n => toString n
  | flag b => toString b
  | numbers ns => Text.bracketed (ns.map toString)
  | marking m => m.fullText

/-- The value as documents write it: a text is taken as it is. -/
def written : ExtensionValue → String
  | text s => s
  | v => v.shown

end ExtensionValue

/-- A named value with its policy. -/
structure Extension where
  key : String
  value : ExtensionValue
  policy : ExtensionPolicy
deriving DecidableEq

/-- A table of named values, one for each key. -/
structure Extensions where
  entries : List Extension
  nodup : (entries.map Extension.key).Nodup
deriving DecidableEq

namespace Extensions

/-- The table without entries. -/
def empty : Extensions := ⟨[], .nil⟩

instance : EmptyCollection Extensions := ⟨empty⟩
instance : Inhabited Extensions := ⟨empty⟩

/-- The number of entries. -/
def size (t : Extensions) : Nat := t.entries.length

/-- The keys in the order in which they came. -/
def keys (t : Extensions) : List String := t.entries.map Extension.key

/-- The entry under a key. -/
def find? (t : Extensions) (key : String) : Option Extension := t.entries.find? (·.key = key)

/-- Whether there is an entry under the key. -/
def contains (t : Extensions) (key : String) : Bool := (t.find? key).isSome

/-- The value under a key. -/
def get? (t : Extensions) (key : String) : Option ExtensionValue := (t.find? key).map (·.value)

/-- The value under a key, if it has the type asked for. -/
def getOfType? (t : Extensions) (key : String) (type : ExtensionType) : Option ExtensionValue :=
  (t.get? key).filter (·.type = type)

/-- The policy of the entry under a key. -/
def policy? (t : Extensions) (key : String) : Option ExtensionPolicy :=
  (t.find? key).map (·.policy)

/-- What changes no key makes none come twice. -/
theorem nodup_map (t : Extensions) {f : Extension → Extension} (h : ∀ d, (f d).key = d.key) :
    ((t.entries.map f).map Extension.key).Nodup := by
  rw [List.map_map, show Extension.key ∘ f = Extension.key from funext h]
  exact t.nodup

theorem nodup_filter (t : Extensions) (keep : Extension → Bool) :
    ((t.entries.filter keep).map Extension.key).Nodup :=
  t.nodup.sublist (List.filter_sublist.map _)

theorem nodup_append {t : Extensions} {e : Extension} (h : t.contains e.key = false) :
    ((t.entries ++ [e]).map Extension.key).Nodup := by
  rw [List.map_append, List.map_singleton, List.nodup_append]
  refine ⟨t.nodup, List.pairwise_singleton _ _, fun key hkey key' hkey' heq => ?_⟩
  obtain ⟨d, hd, rfl⟩ := List.mem_map.1 hkey
  obtain rfl := List.mem_singleton.1 hkey'
  rw [contains, find?, Option.isSome_eq_false_iff, Option.isNone_iff_eq_none, List.find?_eq_none] at h
  exact h d hd (decide_eq_true heq)

/-- Puts an entry into the table: where its key is present it takes that entry's place, else it
comes last. -/
def put (t : Extensions) (e : Extension) : Extensions :=
  if h : t.contains e.key then
    ⟨t.entries.map fun d => if d.key = e.key then e else d, t.nodup_map fun d => by
      split
      · next hkey => exact hkey.symm
      · rfl⟩
  else ⟨t.entries ++ [e], nodup_append (Bool.eq_false_iff.2 h)⟩

/-- Changes the value under a key and keeps its policy. -/
def modify (t : Extensions) (key : String) (f : ExtensionValue → ExtensionValue) : Extensions :=
  ⟨t.entries.map fun d => if d.key = key then { d with value := f d.value } else d,
    t.nodup_map fun d => by split <;> rfl⟩

/-- Takes the entry under a key out; the others keep their order. -/
def erase (t : Extensions) (key : String) : Extensions :=
  ⟨t.entries.filter (·.key ≠ key), t.nodup_filter _⟩

/-- The entries that a document writes out. -/
def persistent (t : Extensions) : List Extension := t.entries.filter (·.policy.persists)

/-- The copy of the table that a copy of its owner gets. -/
def copied (t : Extensions) : Extensions :=
  ⟨t.entries.filter (·.policy.copies), t.nodup_filter _⟩

/-- The table on one line: `{"key": (Policy, value)}`. -/
def text (t : Extensions) : String :=
  Text.braced (t.entries.map fun e =>
    (Text.quoted e.key, "(" ++ Text.joined [e.policy.text, e.value.shown] ++ ")"))

end Extensions

end PetriNets
