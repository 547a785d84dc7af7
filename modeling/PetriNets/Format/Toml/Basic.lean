/-!
# TOML tables

TOML as a tree of tables, and the rules by which headers and dotted keys build it: a table is opened
once, by a header or by dotted keys but not by both, and what is written inside braces is complete.
-/

namespace PetriNets

/-- How a table came to be. -/
inductive TableKind where
  /-- Opened by a header of its own, or the root. -/
  | header
  /-- Implied by the header of a table inside it. -/
  | implied
  /-- Made by a dotted key. -/
  | dotted
  /-- Written inside braces. -/
  | inline
deriving DecidableEq

/-- A TOML value. Truth values, fractions and times, which nothing reads, are kept only as what they
are. -/
inductive Toml where
  | text (value : String)
  | integer (value : Int)
  | other
  | array (items : List Toml)
  | table (kind : TableKind) (entries : List (String × Toml))
  /-- Tables that were opened under one header in double brackets. -/
  | tables (elements : List (List (String × Toml)))

namespace Toml

/-- The entries of a table. -/
abbrev Entries := List (String × Toml)

/-- Puts a value in the place of the one under a key. -/
def replace (es : Entries) (key : String) (v : Toml) : Entries :=
  es.map fun e => if e.1 = key then (key, v) else e

/-- Changes the table at a path below the given one, opening the tables on the way that are not
there. A dotted path must not lead through a table that a header opened. -/
def modifyAt (dotted : Bool) (f : TableKind → Entries → Option Entries) :
    List String → TableKind → Entries → Option Entries
  | [], kind, es => f kind es
  | key :: path, _, es =>
    match es.lookup key with
    | none => do
      let kind := if dotted then .dotted else .implied
      some (es ++ [(key, .table kind (← modifyAt dotted f path kind []))])
    | some (.table kind inner) => do
      if kind = .inline || (dotted && kind = .header) then none
      else some (replace es key (.table kind (← modifyAt dotted f path kind inner)))
    | some (.tables elements) => do
      match elements.getLast? with
      | some last =>
        let last ← modifyAt dotted f path .header last
        some (replace es key (.tables (elements.dropLast ++ [last])))
      | none => none
    | some _ => none

/-- Writes a value under a key, dotted or not, in a table. The key must be new, and a dotted key must
not add to a table that a header opened or implied. -/
def assign (keys : List String) (v : Toml) (kind : TableKind) (es : Entries) : Option Entries :=
  match keys.getLast? with
  | none => none
  | some key =>
    let path := keys.dropLast
    modifyAt true (fun kind es =>
      if (kind = .dotted) = path.isEmpty then none
      else if (es.lookup key).isSome then none
      else some (es ++ [(key, v)])) path kind es

/-- Opens the table of a header. -/
def openTable (keys : List String) (root : Entries) : Option Entries :=
  match keys.getLast? with
  | none => none
  | some key => modifyAt false (fun _ es =>
      match es.lookup key with
      | none => some (es ++ [(key, .table .header [])])
      | some (.table .implied inner) => some (replace es key (.table .header inner))
      | some _ => none) keys.dropLast .header root

/-- Opens one more table under a header in double brackets. -/
def openElement (keys : List String) (root : Entries) : Option Entries :=
  match keys.getLast? with
  | none => none
  | some key => modifyAt false (fun _ es =>
      match es.lookup key with
      | none => some (es ++ [(key, .tables [[]])])
      | some (.tables elements) => some (replace es key (.tables (elements ++ [[]])))
      | some _ => none) keys.dropLast .header root

end Toml

end PetriNets
