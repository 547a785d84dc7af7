import PetriNets.Id

/-!
# Tables

A `Table` is a list that hands out an `Id` for each value it takes up and is read by such ids
alone. What a table holds is `toList`; every operation has one lemma that tells what it does there.
-/

namespace PetriNets

/-- Values numbered by the ids of one kind. -/
structure Table (tag : Char) (α : Type) where
  toArray : Array α
deriving DecidableEq

namespace Table

variable {tag : Char} {α β : Type}

/-- The values in the order of their ids. -/
def toList (t : Table tag α) : List α := t.toArray.toList

/-- The table of the values of a list. -/
def ofList (xs : List α) : Table tag α := ⟨xs.toArray⟩

/-- A table that holds nothing. -/
def empty : Table tag α := ofList []

/-- `n` times the same value. -/
def replicate (n : Nat) (a : α) : Table tag α := ofList (List.replicate n a)

/-- How many values the table holds. -/
def size (t : Table tag α) : Nat := t.toArray.size

/-- The id that the next value will get. -/
def nextId (t : Table tag α) : Id tag := ⟨t.size⟩

/-- Takes up a value under `nextId`. -/
def push (t : Table tag α) (a : α) : Table tag α := ⟨t.toArray.push a⟩

/-- The value of an id, if the table reaches that far. -/
def get? (t : Table tag α) (i : Id tag) : Option α := t.toArray[i.index]?

/-- Replaces the value of an id; past the end nothing changes. -/
def set (t : Table tag α) (i : Id tag) (a : α) : Table tag α := ⟨t.toArray.setIfInBounds i.index a⟩

/-- The ids in use, in order. -/
def ids (t : Table tag α) : List (Id tag) := Id.upTo t.size

/-- The values with their ids, in order. -/
def entries (t : Table tag α) : List (Id tag × α) := t.ids.zip t.toList

@[simp] theorem toList_ofList (xs : List α) : (ofList xs : Table tag α).toList = xs := by
  simp [toList, ofList]

@[simp] theorem toList_push (t : Table tag α) (a : α) : (t.push a).toList = t.toList ++ [a] := by
  simp [toList, push]

@[simp] theorem toList_set (t : Table tag α) (i : Id tag) (a : α) :
    (t.set i a).toList = t.toList.set i.index a := by
  simp [toList, set]

theorem get?_eq (t : Table tag α) (i : Id tag) : t.get? i = t.toList[i.index]? := by
  simp [get?, toList]

@[simp] theorem length_toList (t : Table tag α) : t.toList.length = t.size := by
  simp [toList, size]

end Table

end PetriNets
