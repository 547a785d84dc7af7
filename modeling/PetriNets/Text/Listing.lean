/-!
# Listings

How several values are shown on one line: a list in square brackets, a map in braces, the items
separated by a comma and a blank.
-/

namespace PetriNets.Text

/-- The items with `, ` between them. -/
def joined (items : List String) : String := ", ".intercalate items

/-- A list: `[a, b]`. -/
def bracketed (items : List String) : String := "[" ++ joined items ++ "]"

/-- A map: `{k: v, l: w}`. -/
def braced (items : List (String × String)) : String :=
  "\x7b" ++ joined (items.map fun kv => kv.1 ++ ": " ++ kv.2) ++ "\x7d"

end PetriNets.Text
