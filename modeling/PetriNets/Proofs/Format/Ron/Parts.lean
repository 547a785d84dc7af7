import Mathlib.Data.Bool.AllAny
import PetriNets.Format.Ron.Writing
import PetriNets.Proofs.Text.Digits

/-!
# Reading the parts of RON that has been written

Blanks, names, strings and numbers are read up to where they end. A name is read as one if `isPlain` holds:
it is made of letters that a reader takes for a name whatever follows. Every escape of a string stands for
the character that it was written for, and a number in decimal is read as an integer, since no character
that could follow it goes on with it or makes a fraction of it.
-/

namespace PetriNets.Ron

variable {level fuel : Nat} {c : Char} {cs rest : List Char} {name : String}

/-! ## Blanks -/

theorem blanks?_cons (hblank : isBlank c = false) (hslash : c ≠ '/') (cs : List Char) :
    blanks? (c :: cs) = some (c :: cs) := by
  unfold blanks?
  rw [pass?.eq_3 c cs (fun _ h => absurd h hslash) fun _ h => absurd h hslash,
    if_neg (Bool.eq_false_iff.1 hblank), if_neg hslash]

theorem blanks?_newline (cs : List Char) : blanks? (newline level ++ cs) = blanks? cs := by
  have hspaces : ∀ n, pass? .blank (List.replicate n ' ' ++ cs) = pass? .blank cs := by
    intro n
    induction n with
    | zero => rfl
    | succ n ih => exact ih
  exact hspaces (4 * level)

theorem blanks?_space (cs : List Char) : blanks? (' ' :: cs) = blanks? cs := rfl

/-! ## Names -/

theorem letterRanges_above : ∀ r ∈ Text.letterRanges, 0x80 ≤ r.1 := by decide +kernel

theorem followerRanges_above : ∀ r ∈ Text.followerRanges, 0x80 ≤ r.1 := by decide +kernel

theorem any_ranges_eq_false {ranges : List (Nat × Nat)} (habove : ∀ r ∈ ranges, 0x80 ≤ r.1)
    (h : c.toNat < 0x80) : ranges.any (fun r => r.1 ≤ c.toNat && c.toNat ≤ r.2) = false := by
  rw [List.any_eq_false]
  intro r hr
  have hr := habove r hr
  simp only [Bool.and_eq_true, decide_eq_true_eq]
  omega

theorem isIdentifierStart_ascii (h : c.toNat < 0x80) :
    Text.isIdentifierStart c = (c.isAlpha || c == '_') := by
  unfold Text.isIdentifierStart
  rw [any_ranges_eq_false letterRanges_above h, Bool.or_false]

theorem isIdentifierRest_ascii (h : c.toNat < 0x80) :
    Text.isIdentifierRest c = (c.isAlpha || c == '_' || c.isDigit) := by
  unfold Text.isIdentifierRest
  rw [any_ranges_eq_false followerRanges_above h, Bool.or_false, isIdentifierStart_ascii h]

/-- Whether a name is made of ASCII letters and does not begin as a string or a byte may. -/
def isPlain (name : String) : Bool :=
  match name.toList with
  | c :: cs => c.isAlpha && c != 'b' && c != 'r' && cs.all fun d => d.isAlpha || d == '_'
  | [] => false

theorem toNat_lt_of_isAlpha (h : c.isAlpha = true) : c.toNat < 0x80 := by
  have hupper : c.isUpper = true → c.val ≤ 'Z'.val := fun h => (of_decide_eq_true h).2
  have hlower : c.isLower = true → c.val ≤ 'z'.val := fun h =>
    of_decide_eq_true (Bool.and_eq_true_iff.1 h).2
  have hZ : 'Z'.val.toNat = 90 := rfl
  have hz : 'z'.val.toNat = 122 := rfl
  show c.val.toNat < 0x80
  rcases Bool.or_eq_true_iff.1 h with h | h
  · have hle := UInt32.le_iff_toNat_le.1 (hupper h)
    omega
  · have hle := UInt32.le_iff_toNat_le.1 (hlower h)
    omega

theorem exists_of_isPlain (h : isPlain name = true) : ∃ c cs, name.toList = c :: cs ∧
    c.isAlpha = true ∧ c ≠ 'b' ∧ c ≠ 'r' ∧ ∀ d ∈ cs, Text.isIdentifierRest d = true := by
  unfold isPlain at h
  split at h
  · next c cs heq =>
    simp only [Bool.and_eq_true, bne_iff_ne, ne_eq, List.all_eq_true, Bool.or_eq_true,
      beq_iff_eq] at h
    obtain ⟨⟨⟨hc, hb⟩, hr⟩, hcs⟩ := h
    refine ⟨c, cs, heq, hc, hb, hr, fun d hd => ?_⟩
    rcases hcs d hd with hletter | rfl
    · rw [isIdentifierRest_ascii (toNat_lt_of_isAlpha hletter), hletter]
      rfl
    · rw [isIdentifierRest_ascii (by decide)]
      rfl
  · cases h

theorem name?_cons (hb : c ≠ 'b') (hr : c ≠ 'r') (cs : List Char) : name? (c :: cs) =
    if Text.isIdentifierStart c then
      some (String.ofList (c :: cs.takeWhile Text.isIdentifierRest), cs.dropWhile Text.isIdentifierRest)
    else none := by
  have hliteral : beginsLiteral (c :: cs) = false := by
    unfold beginsLiteral
    split
    case h_8 => rfl
    all_goals
      next heq =>
        obtain ⟨rfl, -⟩ := List.cons.inj heq
        first | exact absurd rfl hb | exact absurd rfl hr
  unfold name?
  rw [hliteral, if_neg Bool.false_ne_true]
  split
  · next heq => exact absurd (List.cons.inj heq).1 hr
  · next heq =>
    obtain ⟨rfl, rfl⟩ := List.cons.inj heq
    rfl
  · next heq => cases heq

theorem isIdentifierStart_of_isAlpha (h : c.isAlpha = true) : Text.isIdentifierStart c = true := by
  rw [isIdentifierStart_ascii (toNat_lt_of_isAlpha h), h]
  rfl

theorem nameChars_of_isPlain (h : isPlain name = true) : nameChars name = name.toList := by
  obtain ⟨c, cs, heq, hc, -, -, hcs⟩ := exists_of_isPlain h
  unfold nameChars
  rw [heq]
  dsimp only
  rw [if_pos (Bool.and_eq_true_iff.2 ⟨isIdentifierStart_of_isAlpha hc, List.all_eq_true.2 hcs⟩)]

/-- A name is read up to where no more of a name stands. -/
theorem name?_nameChars (h : isPlain name = true) (hrest : Text.Stops Text.isIdentifierRest rest) :
    name? (nameChars name ++ rest) = some (name, rest) := by
  obtain ⟨c, cs, heq, hc, hb, hr, hcs⟩ := exists_of_isPlain h
  rw [nameChars_of_isPlain h, heq, List.cons_append, name?_cons hb hr,
    if_pos (isIdentifierStart_of_isAlpha hc), Text.takeWhile_append_stop hcs hrest,
    Text.dropWhile_append_stop hcs hrest, ← heq, String.ofList_toList]

/-! ## Where a part ends -/

/-- The characters with which what is written may begin, apart from names. -/
def openers : List Char := ['"', '[', '(', '{', '0', '1', '2', '3', '4', '5', '6', '7', '8', '9']

theorem name?_eq_none (h : c ∈ openers) (cs : List Char) : name? (c :: cs) = none := by
  have hstart : ∀ c ∈ openers, c ≠ 'b' ∧ c ≠ 'r' ∧ c.toNat < 0x80 ∧ (c.isAlpha || c == '_') = false :=
    List.all_iff_forall_prop.1 (by decide)
  obtain ⟨hb, hr, hascii, hno⟩ := hstart c h
  rw [name?_cons hb hr, isIdentifierStart_ascii hascii, hno, if_neg Bool.false_ne_true]

/-- What stands behind a value: nothing, or one of the characters that separate and close values. -/
def Ends (rest : List Char) : Prop := ∀ c ∈ rest.head?, c ∈ [',', ':', ')']

theorem ends_nil : Ends [] := nofun

theorem ends_cons (h : c ∈ [',', ':', ')']) : Ends (c :: rest) := by
  rintro _ ⟨⟩
  exact h

namespace Ends

variable (h : Ends rest)
include h

theorem stops {p : Char → Bool} (hp : ([',', ':', ')'].all fun c => p c = false) = true) :
    Text.Stops p rest :=
  fun c hc => List.all_iff_forall_prop.1 hp c (h c hc)

theorem blanks? : blanks? rest = some rest := by
  cases rest with
  | nil => rfl
  | cons c rest =>
    have hc : ∀ c ∈ [',', ':', ')'], isBlank c = false ∧ c ≠ '/' :=
      List.all_iff_forall_prop.1 (by decide)
    obtain ⟨hblank, hslash⟩ := hc c (h c rfl)
    exact blanks?_cons hblank hslash rest

theorem stops_identifier : Text.Stops Text.isIdentifierRest rest := by
  intro c hc
  have hascii : ∀ c ∈ [',', ':', ')'], c.toNat < 0x80 ∧ (c.isAlpha || c == '_' || c.isDigit) = false :=
    List.all_iff_forall_prop.1 (by decide)
  obtain ⟨hlow, hno⟩ := hascii c (h c hc)
  rw [isIdentifierRest_ascii hlow, hno]

end Ends

/-! ## Strings -/

theorem toNat_lt (c : Char) : c.toNat < Nat.pow 16 6 := by
  have hvalid : c.toNat.isValidChar := c.valid
  have hpow : Nat.pow 16 6 = 0x1000000 := rfl
  unfold Nat.isValidChar at hvalid
  omega

theorem charNumber?_numbered (c : Char) (rest : List Char) :
    charNumber? (Nat.toDigits 16 c.toNat ++ '}' :: rest) = some (c, rest) := by
  have hbrace : ∀ d ∈ Nat.toDigits 16 c.toNat, decide (d ≠ '}') = true := by
    intro d hd
    have hhex := Text.isHexDigit_of_mem_toDigits (by decide) (by decide) hd
    refine decide_eq_true ?_
    rintro rfl
    cases hhex
  have hstop : Text.Stops (fun d => decide (d ≠ '}')) ('}' :: rest) := Text.stops_cons rfl
  have hlength : (Nat.toDigits 16 c.toNat).length ≤ 6 :=
    (Nat.length_toDigits_le_iff (by decide) (by decide)).2 (toNat_lt c)
  have htest : ((Nat.toDigits 16 c.toNat).isEmpty || decide ((Nat.toDigits 16 c.toNat).length > 6)) =
      false := by
    rw [List.isEmpty_eq_false_iff.2 Nat.toDigits_ne_nil, decide_eq_false (by omega)]
    rfl
  unfold charNumber?
  rw [Text.takeWhile_append_stop hbrace hstop, Text.dropWhile_append_stop hbrace hstop]
  dsimp only
  rw [htest, if_neg Bool.false_ne_true, Text.number?_toDigits (by decide) (by decide)]
  show (if c.toNat.isValidChar then some (Char.ofNat c.toNat, rest) else none) = _
  have hvalid : c.toNat.isValidChar := c.valid
  rw [if_pos hvalid, Char.ofNat_toNat]

/-- A string is read character by character, whether it is written as it is or as an escape. -/
theorem stringWithin?_escaped (c : Char) (rest : List Char) :
    stringWithin? (fuel + 1) (Text.escaped c ++ rest) =
      (stringWithin? fuel rest).map fun r => (c :: r.1, r.2) := by
  have hescape : ∀ cs, escape? ('\\' :: cs) = some (c, rest) →
      stringWithin? (fuel + 1) ('\\' :: cs) =
        (stringWithin? fuel rest).map fun r => (c :: r.1, r.2) := by
    intro cs h
    rw [stringWithin?, h, Option.bind_eq_bind, Option.bind_some]
    dsimp only
    cases stringWithin? fuel rest <;> rfl
  unfold Text.escaped
  split
  -- what has no short escape is written by its number if it is not visible, and else as it is
  case h_7 hzero htab hreturn hline hslash hquote =>
    split
    · rw [List.singleton_append, stringWithin?.eq_5 _ _ _ hquote hslash]
    · have hnumbered : Text.numbered c ++ rest =
          '\\' :: 'u' :: '{' :: (Nat.toDigits 16 c.toNat ++ '}' :: rest) := by
        simp [Text.numbered]
      rw [hnumbered]
      exact hescape _ (charNumber?_numbered c rest)
  all_goals exact hescape _ rfl

theorem stringWithin?_flatMap (cs : List Char) (h : cs.length < fuel) :
    stringWithin? fuel (cs.flatMap Text.escaped ++ '"' :: rest) = some (cs, rest) := by
  induction cs generalizing fuel with
  | nil =>
    cases fuel with
    | zero => cases h
    | succ fuel => rfl
  | cons c cs ih =>
    cases fuel with
    | zero => cases h
    | succ fuel =>
      rw [List.flatMap_cons, List.append_assoc, stringWithin?_escaped, ih (Nat.lt_of_succ_lt_succ h)]
      rfl

theorem escaped_ne_nil (c : Char) : Text.escaped c ≠ [] := by
  unfold Text.escaped
  split
  case h_7 => split <;> exact List.cons_ne_nil _ _
  all_goals exact List.cons_ne_nil _ _

theorem length_le_flatMap (cs : List Char) : cs.length ≤ (cs.flatMap Text.escaped).length := by
  induction cs with
  | nil => exact Nat.le_refl 0
  | cons c cs ih =>
    have hpos := List.length_pos_of_ne_nil (escaped_ne_nil c)
    rw [List.flatMap_cons, List.length_append, List.length_cons]
    omega

theorem string?_quotedChars (s : String) (rest : List Char) : ∃ cs,
    Text.quotedChars s.toList ++ rest = '"' :: cs ∧ string? cs = some (s, rest) := by
  refine ⟨s.toList.flatMap Text.escaped ++ '"' :: rest, by simp [Text.quotedChars], ?_⟩
  have hlength := length_le_flatMap s.toList
  unfold string?
  rw [stringWithin?_flatMap _ (by rw [List.length_append]; omega)]
  exact congrArg (fun s => some (s, rest)) String.ofList_toList

/-! ## Numbers -/

theorem digits_spec (n : Nat) : ∀ c ∈ Text.decimalChars n,
    isIntegerChar c = true ∧ isFractionChar c = true ∧ decide (c ≠ '_') = true := by
  intro c hc
  have hdigit := Text.isDigit_of_mem_decimalChars hc
  have hhex := Text.isHexDigit_of_mem_toDigits (by decide) (by decide) hc
  refine ⟨?_, ?_, decide_eq_true ?_⟩
  · unfold isIntegerChar
    rw [hhex]
    rfl
  · unfold isFractionChar
    rw [hdigit]
    rfl
  · rintro rfl
    cases hdigit

theorem base_decimalChars (n : Nat) (h : Ends rest) :
    base (Text.decimalChars n ++ rest) = (10, Text.decimalChars n ++ rest) := by
  obtain ⟨c, cs, hchars, -, hzero⟩ := Text.exists_decimalChars n
  -- only a zero with a letter behind it tells another base, and no value ends with a letter
  by_cases hfirst : c = '0'
  · obtain rfl := hzero hfirst
    cases rest with
    | nil => rfl
    | cons d rest =>
      have hd := h d rfl
      simp only [List.mem_cons, List.not_mem_nil, or_false] at hd
      rcases hd with rfl | rfl | rfl <;> rfl
  · rw [hchars, List.cons_append]
    unfold base
    split
    case h_4 => rfl
    all_goals
      next heq => exact absurd (List.cons.inj heq).1 hfirst

/-- No suffix of a number stands where a value ends. -/
theorem noSuffix (h : Ends rest) :
    suffixes.findSome? (fun s => (anyWord? [s.1] rest).map (s, ·)) = none := by
  cases rest with
  | nil => rfl
  | cons c rest =>
    have hc := h c rfl
    simp only [List.mem_cons, List.not_mem_nil, or_false] at hc
    rcases hc with rfl | rfl | rfl <;> rfl

theorem integer?_decimalChars (n : Nat) (h : Ends rest) :
    integer? false (Text.decimalChars n ++ rest) = some (.natural n, rest) := by
  have hinteger : Text.Stops isIntegerChar rest := h.stops (by decide)
  have htake : (Text.decimalChars n ++ rest).takeWhile isIntegerChar = Text.decimalChars n :=
    Text.takeWhile_append_stop (fun c hc => (digits_spec n c hc).1) hinteger
  have hdrop : (Text.decimalChars n ++ rest).dropWhile isIntegerChar = rest :=
    Text.dropWhile_append_stop (fun c hc => (digits_spec n c hc).1) hinteger
  have hfilter : (Text.decimalChars n).filter (· ≠ '_') = Text.decimalChars n :=
    List.filter_eq_self.2 fun c hc => (digits_spec n c hc).2.2
  obtain ⟨c, cs, hchars, -⟩ := Text.exists_decimalChars n
  have hfirst : ((Text.decimalChars n).isEmpty || (Text.decimalChars n).head? == some '_') = false := by
    have hc := (digits_spec n c (hchars ▸ List.mem_cons_self)).2.2
    rw [hchars]
    simpa using of_decide_eq_true hc
  unfold integer?
  rw [base_decimalChars n h]
  dsimp only
  rw [htake, hdrop, hfirst, if_neg Bool.false_ne_true, hfilter, Text.number?_decimalChars, noSuffix h]
  rfl

/-- Without a sign, and unless a fraction begins here, a number is an integer. -/
theorem number?_unsigned {v : Ron} (hminus : c ≠ '-') (hplus : c ≠ '+')
    (hlength : ((c :: cs).takeWhile isFractionChar).length ≤ ((c :: cs).takeWhile isIntegerChar).length)
    (h : integer? false (c :: cs) = some (v, rest)) : number? (c :: cs) = some (v, rest) := by
  unfold number?
  split
  next negative digits heq =>
    split at heq
    · next hcs => exact absurd (List.cons.inj hcs).1 hminus
    · next hcs => exact absurd (List.cons.inj hcs).1 hplus
    · obtain ⟨rfl, rfl⟩ := Prod.mk.inj heq
      rw [if_neg (Nat.not_lt.2 hlength), h]

theorem number?_decimalChars (n : Nat) (h : Ends rest) :
    number? (Text.decimalChars n ++ rest) = some (.natural n, rest) := by
  have htake : (Text.decimalChars n ++ rest).takeWhile isIntegerChar = Text.decimalChars n :=
    Text.takeWhile_append_stop (fun c hc => (digits_spec n c hc).1) (h.stops (by decide))
  have htake' : (Text.decimalChars n ++ rest).takeWhile isFractionChar = Text.decimalChars n :=
    Text.takeWhile_append_stop (fun c hc => (digits_spec n c hc).2.1) (h.stops (by decide))
  have hinteger := integer?_decimalChars n h
  have hlength : ((Text.decimalChars n ++ rest).takeWhile isFractionChar).length ≤
      ((Text.decimalChars n ++ rest).takeWhile isIntegerChar).length :=
    Nat.le_of_eq (congrArg List.length (htake'.trans htake.symm))
  obtain ⟨c, cs, hchars, hdigit, -⟩ := Text.exists_decimalChars n
  rw [hchars, List.cons_append] at hinteger hlength ⊢
  refine number?_unsigned ?_ ?_ hlength hinteger <;> (rintro rfl; cases hdigit)

end PetriNets.Ron
