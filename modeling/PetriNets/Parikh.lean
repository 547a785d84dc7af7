import PetriNets.OrderedMap
import PetriNets.Text.Listing
import PetriNets.Text.Quoted

/-!
# Parikh vectors

How often each label occurs in a sequence, whatever the order.
-/

namespace PetriNets

/-- Labels with their numbers of occurrences. -/
structure ParikhVector where
  counts : OrderedMap Nat
deriving DecidableEq

namespace ParikhVector

/-- The vector of the empty sequence. -/
def empty : ParikhVector := ⟨∅⟩

/-- Counts some more occurrences of a label; none leave the vector as it is. -/
def add (v : ParikhVector) (label : String) (n : Nat) : ParikhVector :=
  if n = 0 then v else ⟨v.counts.update label fun old => old.getD 0 + n⟩

/-- The vector of a sequence of labels. -/
def ofSequence (labels : List String) : ParikhVector :=
  labels.foldl (fun v l => v.add l 1) empty

/-- How often a label occurs. -/
def get (v : ParikhVector) (label : String) : Nat := (v.counts.get? label).getD 0

/-- The labels with their counts, in order. -/
def entries (v : ParikhVector) : List (String × Nat) := v.counts.entries

/-- The labels, in order. -/
def labels (v : ParikhVector) : List String := v.counts.keys

/-- The number of all occurrences. -/
def length (v : ParikhVector) : Nat := (v.entries.map Prod.snd).foldr (· + ·) 0

/-- Whether no label is counted. -/
def isEmpty (v : ParikhVector) : Bool := v.counts.isEmpty

/-- Whether no label of the first vector occurs in the second one. -/
def isDisjoint (v w : ParikhVector) : Bool := v.labels.all fun l => w.get l = 0

/-- The order of the lists of entries. -/
def compare (v w : ParikhVector) : Ordering :=
  List.compareLex (compareLex (compareOn Prod.fst) (compareOn Prod.snd)) v.entries w.entries

/-- The counts on one line: `{a: 2, b: 1}`. -/
def text (v : ParikhVector) : String :=
  Text.braced (v.entries.map fun e => (e.1, toString e.2))

/-- The counts on one line with the labels quoted: `{"a": 2, "b": 1}`. -/
def shown (v : ParikhVector) : String :=
  Text.braced (v.entries.map fun e => (Text.quoted e.1, toString e.2))

@[simp] theorem add_zero (v : ParikhVector) (label : String) : v.add label 0 = v := rfl

end ParikhVector

end PetriNets
