import PetriNets.Id
import PetriNets.Text.Listing
import PetriNets.Token

/-!
# Markings

A marking tells what each place of a net holds, in the order of the places. Markings of one length
are ordered place by place: one covers another when it holds at least as much everywhere.
-/

namespace PetriNets

/-- The tokens of each place, by the place's position. -/
structure Marking where
  tokens : List Token
deriving DecidableEq

namespace Marking

/-- No tokens on any of `n` places. -/
def zero (n : Nat) : Marking := ⟨List.replicate n .zero⟩

/-- The marking with the given finite counts. -/
def ofCounts (counts : List Nat) : Marking := ⟨counts.map .finite⟩

/-- How many places the marking speaks of. -/
def size (m : Marking) : Nat := m.tokens.length

/-- The tokens of a place; a place past the end holds none. -/
def count (m : Marking) (p : PlaceId) : Token := m.tokens[p.index]?.getD .zero

/-- Replaces the tokens of a place; past the end nothing changes. -/
def set (m : Marking) (p : PlaceId) (t : Token) : Marking := ⟨m.tokens.set p.index t⟩

/-- The places the marking speaks of, in order. -/
def places (m : Marking) : List PlaceId := Id.upTo m.size

/-- Each place with its tokens, in order. -/
def entries (m : Marking) : List (PlaceId × Token) := m.places.zip m.tokens

/-- Whether some place holds `ω`. -/
def hasOmega (m : Marking) : Bool := m.tokens.any Token.isOmega

/-- The places that hold `ω`, in order. -/
def omegaPlaces (m : Marking) : List PlaceId :=
  (m.entries.filter fun e => e.2.isOmega).map Prod.fst

/-- The order place by place. Markings of different length, and markings each of which holds more
than the other somewhere, are not comparable. -/
def compare? (m n : Marking) : Option Ordering :=
  if m.size ≠ n.size then none
  else
    let signs := List.zipWith compare m.tokens n.tokens
    match signs.contains .lt, signs.contains .gt with
    | true, true => none
    | true, false => some .lt
    | false, true => some .gt
    | false, false => some .eq

/-- At least as much on every place. -/
def covers (m n : Marking) : Bool := m.compare? n = some .gt || m.compare? n = some .eq

/-- At least as much on every place, and more on one. -/
def strictlyCovers (m n : Marking) : Bool := m.compare? n = some .gt

/-- The counts in place order: `[1, ω]`. -/
def text (m : Marking) : String := Text.bracketed (m.tokens.map Token.text)

/-- The counts with the ids of their places: `{p#0: 1, p#1: ω}`. -/
def fullText (m : Marking) : String :=
  Text.braced (m.entries.map fun e => (e.1.text, e.2.text))

@[simp] theorem size_set (m : Marking) (p : PlaceId) (t : Token) : (m.set p t).size = m.size := by
  simp [set, size]

theorem count_set_self {m : Marking} {p : PlaceId} (h : p.index < m.size) (t : Token) :
    (m.set p t).count p = t := by
  have h' : p.index < m.tokens.length := h
  simp [set, count, h']

theorem count_set_of_ne {m : Marking} {p q : PlaceId} (h : p ≠ q) (t : Token) :
    (m.set p t).count q = m.count q := by
  have h' : p.index ≠ q.index := fun e => h (by cases p; cases q; simp_all)
  simp [set, count, List.getElem?_set_ne h']

end Marking

end PetriNets
