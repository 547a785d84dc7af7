/-!
# Ordered maps

A finite map from texts, kept as the list of its entries in the order of the keys. The order is
part of the type, so two maps with the same entries are equal and a map is written in one way only.
Texts are ordered by the numbers of their characters, which is the order of their UTF-8 bytes.
-/

namespace PetriNets

/-- Keys with their values, in strictly ascending order of the keys. -/
structure OrderedMap (α : Type) where
  entries : List (String × α)
  ascending : entries.Pairwise fun a b => a.1 < b.1
deriving DecidableEq

namespace OrderedMap

variable {α : Type}

/-- Puts `f` of the present value under `k`, keeping the order. -/
def place (k : String) (f : Option α → α) : List (String × α) → List (String × α)
  | [] => [(k, f none)]
  | (l, v) :: rest =>
    if k < l then (k, f none) :: (l, v) :: rest
    else if k = l then (k, f (some v)) :: rest
    else (l, v) :: place k f rest

theorem key_of_mem_place {k : String} {f : Option α → α} {es : List (String × α)}
    {e : String × α} (h : e ∈ place k f es) : e.1 = k ∨ ∃ d ∈ es, d.1 = e.1 := by
  induction es with
  | nil => simp_all [place]
  | cons d rest ih =>
    obtain ⟨l, v⟩ := d
    simp only [place] at h
    split at h
    · simp only [List.mem_cons] at h
      rcases h with rfl | rfl | h
      · exact .inl rfl
      · exact .inr ⟨_, .head _, rfl⟩
      · exact .inr ⟨_, .tail _ h, rfl⟩
    · split at h
      · rcases List.mem_cons.1 h with rfl | h
        · exact .inl rfl
        · exact .inr ⟨_, .tail _ h, rfl⟩
      · rcases List.mem_cons.1 h with rfl | h
        · exact .inr ⟨_, .head _, rfl⟩
        · rcases ih h with h | ⟨d, hd, he⟩
          · exact .inl h
          · exact .inr ⟨d, .tail _ hd, he⟩

theorem ascending_place (k : String) (f : Option α → α) {es : List (String × α)}
    (h : es.Pairwise fun a b => a.1 < b.1) : (place k f es).Pairwise fun a b => a.1 < b.1 := by
  induction es with
  | nil => simp [place]
  | cons d rest ih =>
    obtain ⟨l, v⟩ := d
    obtain ⟨hl, hrest⟩ := List.pairwise_cons.1 h
    simp only [place]
    split
    · next hk =>
      refine List.pairwise_cons.2 ⟨fun e he => ?_, h⟩
      rcases List.mem_cons.1 he with rfl | he
      · exact hk
      · exact String.lt_trans hk (hl e he)
    · next hk =>
      split
      · next hkl => exact List.pairwise_cons.2 ⟨fun e he => hkl ▸ hl e he, hrest⟩
      · next hkl =>
        have hlk : l < k := by
          rcases Std.lt_trichotomy k l with h | h | h
          · exact absurd h hk
          · exact absurd h hkl
          · exact h
        refine List.pairwise_cons.2 ⟨fun e he => ?_, ih hrest⟩
        rcases key_of_mem_place he with he | ⟨d, hd, he⟩
        · exact he ▸ hlk
        · exact he ▸ hl d hd

/-- The map without entries. -/
def empty : OrderedMap α := ⟨[], .nil⟩

instance : EmptyCollection (OrderedMap α) := ⟨empty⟩

/-- Puts `f` of the present value under `k`. -/
def update (m : OrderedMap α) (k : String) (f : Option α → α) : OrderedMap α :=
  ⟨place k f m.entries, ascending_place k f m.ascending⟩

/-- Puts a value under a key, in place of the one that is there. -/
def insert (m : OrderedMap α) (k : String) (v : α) : OrderedMap α := m.update k fun _ => v

/-- The map of a list of entries; of several entries with one key the last one counts. -/
def ofList (es : List (String × α)) : OrderedMap α :=
  es.foldl (fun m e => m.insert e.1 e.2) ∅

/-- The value under a key. -/
def get? (m : OrderedMap α) (k : String) : Option α := m.entries.lookup k

/-- The keys, in order. -/
def keys (m : OrderedMap α) : List String := m.entries.map Prod.fst

/-- Whether there is no entry. -/
def isEmpty (m : OrderedMap α) : Bool := m.entries.isEmpty

theorem ext {m n : OrderedMap α} (h : m.entries = n.entries) : m = n := by
  cases m; cases n; simp_all

end OrderedMap

end PetriNets
