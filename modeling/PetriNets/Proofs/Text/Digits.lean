import Mathlib.Data.List.Basic
import PetriNets.Text.Digits

/-!
# Reading digits

A number is read back from its digits in any base that `digit?` knows (`number?_toDigits`). A reader finds
the end of a number, or of a name, where the first character stands that cannot go on with it
(`takeWhile_append_stop`).
-/

namespace PetriNets.Text

variable {b n : Nat} {c : Char} {cs rest : List Char} {p : Char → Bool}

/-! ## Where something ends -/

/-- The rest of a text does not go on with characters of this kind. -/
def Stops (p : Char → Bool) (rest : List Char) : Prop := ∀ c ∈ rest.head?, p c = false

theorem stops_cons (h : p c = false) : Stops p (c :: rest) := by
  rintro _ ⟨⟩
  exact h

theorem takeWhile_append_stop (hcs : ∀ c ∈ cs, p c = true) (hrest : Stops p rest) :
    (cs ++ rest).takeWhile p = cs := by
  have hstop : rest.takeWhile p = [] := by
    cases rest with
    | nil => rfl
    | cons c rest => exact List.takeWhile_cons_of_neg (Bool.eq_false_iff.1 (hrest c rfl))
  rw [List.takeWhile_append_of_pos hcs, hstop, List.append_nil]

theorem dropWhile_append_stop (hcs : ∀ c ∈ cs, p c = true) (hrest : Stops p rest) :
    (cs ++ rest).dropWhile p = rest := by
  rw [List.dropWhile_append_of_pos hcs]
  cases rest with
  | nil => rfl
  | cons c rest => exact List.dropWhile_cons_of_neg (Bool.eq_false_iff.1 (hrest c rfl))

/-! ## Numbers -/

theorem digit?_digitChar (h : n < 16) : digit? n.digitChar = some n := by
  revert n
  decide

theorem number?_append (start : Nat) (cs ds : List Char) :
    number? b start (cs ++ ds) = (number? b start cs).bind fun m => number? b m ds := by
  induction cs generalizing start with
  | nil => rfl
  | cons c cs ih =>
    rw [List.cons_append, number?, number?]
    cases digit? c with
    | none => rfl
    | some d =>
      dsimp only
      split
      · exact ih _
      · rfl

theorem number?_digitChar (start : Nat) (hn : n < b) (hb : b ≤ 16) :
    number? b start [n.digitChar] = some (start * b + n) := by
  unfold number?
  rw [digit?_digitChar (Nat.lt_of_lt_of_le hn hb)]
  dsimp only
  rw [if_pos hn]
  rfl

theorem number?_toDigits (hb : 1 < b) (hb' : b ≤ 16) : number? b 0 (Nat.toDigits b n) = some n := by
  -- the last digit is split off, as the digits are made; what stands before it are the digits of `n / b`
  induction n using Nat.strongRecOn with
  | _ n ih =>
    rw [Nat.toDigits_eq_if hb]
    split
    · next hn => simpa using number?_digitChar 0 hn hb'
    · next hn =>
      have hsmaller : n / b < n := Nat.div_lt_self (by omega) hb
      rw [number?_append, ih (n / b) hsmaller, Option.bind_some,
        number?_digitChar (n / b) (Nat.mod_lt n (by omega)) hb', Nat.div_add_mod']

theorem isHexDigit_of_mem_toDigits (hb : 1 < b) (hb' : b ≤ 16) (hc : c ∈ Nat.toDigits b n) :
    isHexDigit c = true := by
  have hdigit : ∀ m < b, isHexDigit m.digitChar = true := by
    intro m hm
    unfold isHexDigit
    rw [digit?_digitChar (Nat.lt_of_lt_of_le hm hb')]
    rfl
  induction n using Nat.strongRecOn with
  | _ n ih =>
    rw [Nat.toDigits_eq_if hb] at hc
    split at hc
    · next hn => exact List.mem_singleton.1 hc ▸ hdigit n hn
    · next hn =>
      rcases List.mem_append.1 hc with hc | hc
      · exact ih (n / b) (Nat.div_lt_self (by omega) hb) hc
      · exact List.mem_singleton.1 hc ▸ hdigit (n % b) (Nat.mod_lt n (by omega))

theorem isDigit_of_mem_decimalChars (hc : c ∈ decimalChars n) : c.isDigit = true :=
  Nat.isDigit_of_mem_toDigits (by decide) (by decide) hc

theorem number?_decimalChars (n : Nat) : number? 10 0 (decimalChars n) = some n :=
  number?_toDigits (by decide) (by decide)

theorem exists_toDigits (n : Nat) : ∃ c cs, Nat.toDigits 10 n = c :: cs ∧ (c = '0' → n = 0) := by
  induction n using Nat.strongRecOn with
  | _ n ih =>
    rw [Nat.toDigits_eq_if (by decide)]
    split
    · next hn =>
      have hzero : ∀ m < 10, Nat.digitChar m = '0' → m = 0 := by decide
      exact ⟨n.digitChar, [], rfl, hzero n hn⟩
    · next hn =>
      obtain ⟨c, cs, heq, hc⟩ := ih (n / 10) (Nat.div_lt_self (by omega) (by decide))
      rw [heq]
      refine ⟨c, _, rfl, fun h => ?_⟩
      have := hc h
      omega

/-- A number begins with a digit, and only the number zero begins with a zero. -/
theorem exists_decimalChars (n : Nat) :
    ∃ c cs, decimalChars n = c :: cs ∧ c.isDigit = true ∧ (c = '0' → n = 0) := by
  obtain ⟨c, cs, hchars, hzero⟩ := exists_toDigits n
  exact ⟨c, cs, hchars, isDigit_of_mem_decimalChars (hchars ▸ List.mem_cons_self), hzero⟩

/-- Different numbers have different texts. -/
theorem toString_injective : Function.Injective (toString : Nat → String) := by
  intro i j h
  have hdigits : Nat.toDigits 10 i = Nat.toDigits 10 j := String.ofList_injective h
  rw [← @Nat.ofDigitChars_ten_toDigits i, hdigits, Nat.ofDigitChars_ten_toDigits]

end PetriNets.Text
