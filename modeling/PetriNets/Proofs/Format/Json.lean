import PetriNets.Format.Json.Writing
import PetriNets.Proofs.Text.Digits

/-!
# Reading JSON that has been written

What is written of a value is read back as this value, and the reader stops where the text of the value
ends (`read`); so a whole text is read back (`parse?_print`). This holds of every value, not only of
those that documents consist of: a string that spells no text is written as half a surrogate pair and read
as one that spells no text.

The text of a value is never shorter than half the fuel that reading it takes: each level and each item
takes one unit, and has a bracket or a comma and a new line.
-/

namespace PetriNets.Json

variable {level fuel : Nat} {v : Json} {vs : List Json} {rest : List Char}

/-! ## Strings -/

/-- How the reader takes a character that has been written. -/
def piece (c : Char) : Piece :=
  if c.toNat < 0x20 ∧ c ∉ ['\x08', '\x0c', '\n', '\r', '\t'] then .unit c.toNat else .plain c

theorem hexDigits (n : Nat) (h : n < 0x20) :
    (if n < 0x10 then ['0', '0', '0'] ++ Nat.toDigits 16 n else ['0', '0'] ++ Nat.toDigits 16 n) =
      ['0', '0', (n / 16).digitChar, (n % 16).digitChar] ∧
    Text.number? 16 0 ['0', '0', (n / 16).digitChar, (n % 16).digitChar] = some n := by
  revert n
  decide

theorem pieces?_unit {n : Nat} (h : n < 0x20) (rest : List Char) :
    pieces? ('\\' :: 'u' :: (if n < 0x10 then ['0', '0', '0'] ++ Nat.toDigits 16 n
      else ['0', '0'] ++ Nat.toDigits 16 n) ++ rest) =
      (pieces? rest).map fun r => (.unit n :: r.1, r.2) := by
  obtain ⟨hdigits, hvalue⟩ := hexDigits n h
  rw [hdigits, List.cons_append, List.cons_append, List.cons_append, List.cons_append, List.cons_append,
    List.cons_append, List.nil_append, pieces?, hvalue]
  cases pieces? rest <;> rfl

theorem pieces?_plain {c : Char} (hquote : c ≠ '"') (hslash : c ≠ '\\') (h : ¬ c.toNat < 0x20)
    (rest : List Char) : pieces? (c :: rest) = (pieces? rest).map fun r => (.plain c :: r.1, r.2) := by
  rw [pieces?.eq_5 c rest hquote (fun _ _ _ _ _ hc => absurd hc hslash) fun _ _ hc => absurd hc hslash]
  have htest : (decide (c.toNat < 0x20) || c == '\\') = false := by
    rw [decide_eq_false h, beq_false_of_ne hslash]
    rfl
  rw [htest]
  cases pieces? rest <;> rfl

theorem pieces?_escaped (c : Char) (rest : List Char) :
    pieces? (escaped c ++ rest) = (pieces? rest).map fun r => (piece c :: r.1, r.2) := by
  unfold escaped
  split
  -- what has no short escape: the other control characters, as units, and everything else, as it is
  case h_8 hquote hslash hb hf hn hr ht =>
    by_cases hcontrol : c.toNat < 0x20
    · have hpiece : piece c = .unit c.toNat :=
        if_pos ⟨hcontrol, by simpa using ⟨hb, hf, hn, hr, ht⟩⟩
      rw [if_pos hcontrol, hpiece, ← pieces?_unit hcontrol]
      split <;> rfl
    · have hpiece : piece c = .plain c := if_neg fun h => hcontrol h.1
      rw [if_neg hcontrol, if_neg (by omega), hpiece]
      exact pieces?_plain hquote hslash hcontrol rest
  all_goals
    show (pieces? rest >>= _) = _
    cases pieces? rest <;> rfl

theorem pieces?_flatMap (cs rest : List Char) :
    pieces? (cs.flatMap escaped ++ '"' :: rest) = some (cs.map piece, rest) := by
  induction cs with
  | nil => rfl
  | cons c cs ih =>
    rw [List.flatMap_cons, List.append_assoc, pieces?_escaped, ih]
    rfl

/-- A unit that is no half of a surrogate pair is a character by itself. -/
theorem spell?_unit {n : Nat} (h : n < 0xd800) (ps : List Piece) :
    spell? (.unit n :: ps) = (spell? ps).map (Char.ofNat n :: ·) := by
  cases ps with
  | nil =>
    show (if 0xd800 ≤ n ∧ n < 0xe000 then none else _) = _
    rw [if_neg (by omega)]
  | cons p ps =>
    cases p with
    | plain c =>
      show (if 0xd800 ≤ n ∧ n < 0xe000 then none else _) = _
      rw [if_neg (by omega)]
    | unit l => rw [spell?, if_neg (by omega), if_neg (by omega)]

theorem spell?_map_piece (cs : List Char) : spell? (cs.map piece) = some cs := by
  induction cs with
  | nil => rfl
  | cons c cs ih =>
    rw [List.map_cons, piece]
    split
    · next h => rw [spell?_unit (by omega), ih, Option.map_some, Char.ofNat_toNat]
    · rw [spell?, ih, Option.map_some]

/-- A string is read up to its closing quote. -/
theorem string?_stringChars (s : Option String) (rest : List Char) :
    ∃ cs, stringChars s ++ rest = '"' :: cs ∧ string? cs = some (s, rest) := by
  cases s with
  | none => exact ⟨_, rfl, rfl⟩
  | some s =>
    refine ⟨s.toList.flatMap escaped ++ '"' :: rest, by simp [stringChars], ?_⟩
    have hspelled : (spell? (s.toList.map piece)).map String.ofList = some s := by
      rw [spell?_map_piece, Option.map_some, String.ofList_toList]
    unfold string?
    rw [pieces?_flatMap]
    exact congrArg (fun s => some (s, rest)) hspelled

/-! ## Numbers -/

/-- What stands behind a value: nothing, or a comma, or a new line. -/
def Ends (rest : List Char) : Prop := ∀ c ∈ rest.head?, c = ',' ∨ c = '\n'

theorem ends_comma : Ends (',' :: rest) := by
  rintro _ ⟨⟩
  exact .inl rfl

theorem ends_newline : Ends (newline level ++ rest) := by
  rintro _ ⟨⟩
  exact .inr rfl

theorem Ends.stops (h : Ends rest) : Text.Stops Char.isDigit rest := by
  intro c hc
  rcases h c hc with rfl | rfl <;> rfl

theorem whole?_decimalChars (n : Nat) (h : Ends rest) :
    whole? (Text.decimalChars n ++ rest) = some rest := by
  obtain ⟨c, cs, heq, -, hzero⟩ := Text.exists_decimalChars n
  have hdigits : ∀ d ∈ c :: cs, d.isDigit = true :=
    fun d hd => Text.isDigit_of_mem_decimalChars (heq ▸ hd)
  obtain ⟨hc, hcs⟩ := List.forall_mem_cons.1 hdigits
  -- a zero must stand alone, and here it does: nothing that ends a value is a digit
  by_cases hfirst : c = '0'
  · obtain rfl := hzero hfirst
    have hnone : rest.head?.any Char.isDigit = false := by
      cases rest with
      | nil => rfl
      | cons d rest => exact h.stops d rfl
    show (if rest.head?.any Char.isDigit then none else some rest) = _
    rw [if_neg (Bool.eq_false_iff.1 hnone)]
  · rw [heq, List.cons_append, whole?.eq_2 _ fun rest heq => hfirst (List.cons.inj heq).1]
    unfold digits1?
    dsimp only
    rw [if_pos hc, Text.dropWhile_append_stop hcs h.stops]

theorem number?_decimalChars (n : Nat) (h : Ends rest) :
    number? (Text.decimalChars n ++ rest) = some (.natural n, rest) := by
  have hminus : ∀ cs, Text.decimalChars n ++ rest = '-' :: cs → False := by
    intro cs heq
    obtain ⟨c, ds, hchars, hc, -⟩ := Text.exists_decimalChars n
    rw [hchars] at heq
    obtain ⟨rfl, -⟩ := List.cons.inj heq
    cases hc
  have hvalue : Text.number? 10 0 ((Text.decimalChars n ++ rest).takeWhile Char.isDigit) = some n := by
    rw [Text.takeWhile_append_stop (fun _ => Text.isDigit_of_mem_decimalChars) h.stops,
      Text.number?_decimalChars]
  rw [number?.eq_2 _ hminus, whole?_decimalChars n h]
  cases rest with
  | nil =>
    show (Text.number? 10 0 _ >>= _) = _
    rw [hvalue]
    rfl
  | cons c rest =>
    rcases h c rfl with rfl | rfl
    all_goals
      show (Text.number? 10 0 _ >>= _) = _
      rw [hvalue]
      rfl

/-! ## Values -/

theorem isBlank_newline : ∀ c ∈ newline level, isBlank c = true := by
  unfold newline
  rw [List.forall_mem_cons]
  exact ⟨rfl, fun c hc => List.eq_of_mem_replicate hc ▸ rfl⟩

theorem blanks_newline (cs : List Char) : blanks (newline level ++ cs) = blanks cs := by
  unfold blanks
  exact List.dropWhile_append_of_pos isBlank_newline

/-- The text of a value begins at once, and not with a bracket that closes a list. -/
theorem exists_chars (level : Nat) (v : Json) :
    ∃ c cs, chars level v = c :: cs ∧ isBlank c = false ∧ c ≠ ']' := by
  cases v with
  | null => exact ⟨'n', _, rfl, rfl, by decide⟩
  | bool b => cases b with
    | true => exact ⟨'t', _, rfl, rfl, by decide⟩
    | false => exact ⟨'f', _, rfl, rfl, by decide⟩
  | natural n =>
    obtain ⟨c, cs, hchars, hc, -⟩ := Text.exists_decimalChars n
    refine ⟨c, cs, hchars, ?_, ?_⟩
    · unfold isBlank
      simp only [Bool.or_eq_false_iff, beq_eq_false_iff_ne]
      refine ⟨⟨⟨?_, ?_⟩, ?_⟩, ?_⟩ <;> (rintro rfl; cases hc)
    · rintro rfl
      cases hc
  | number => exact ⟨'-', _, rfl, rfl, by decide⟩
  | text s => cases s <;> exact ⟨'"', _, rfl, rfl, by decide⟩
  | array vs => cases vs <;> exact ⟨'[', _, rfl, rfl, by decide⟩
  | object ms => cases ms <;> exact ⟨'{', _, rfl, rfl, by decide⟩

theorem blanks_chars (level : Nat) (v : Json) (rest : List Char) :
    blanks (chars level v ++ rest) = chars level v ++ rest := by
  obtain ⟨c, cs, heq, hblank, -⟩ := exists_chars level v
  rw [heq]
  exact List.dropWhile_cons_of_neg (Bool.eq_false_iff.1 hblank)

theorem blanks_stringChars (s : Option String) (rest : List Char) :
    blanks (stringChars s ++ rest) = stringChars s ++ rest := blanks_chars 0 (.text s) rest

theorem value?_natural (n : Nat) (h : Ends rest) :
    value? (fuel + 1) (Text.decimalChars n ++ rest) = some (.natural n, rest) := by
  have hnumber := number?_decimalChars n h
  obtain ⟨c, cs, hchars, hc, -⟩ := Text.exists_decimalChars n
  rw [hchars, List.cons_append] at hnumber ⊢
  unfold value?
  dsimp only
  split
  -- nothing else that a value may begin with is a digit
  case h_7 => exact hnumber
  all_goals
    next heq =>
      obtain ⟨rfl, -⟩ := List.cons.inj heq
      cases hc

theorem itemChars_cons_append (v : Json) (vs : List Json) (rest : List Char) :
    itemChars level (v :: vs) ++ rest =
      ',' :: (newline (level + 1) ++ (chars (level + 1) v ++ (itemChars level vs ++ rest))) := by
  simp [itemChars]

theorem memberChars_cons_append (k : Option String) (v : Json) (ms : List (Option String × Json))
    (rest : List Char) : memberChars level ((k, v) :: ms) ++ rest =
      ',' :: (newline (level + 1) ++ (stringChars k ++ ':' :: ' ' ::
        (chars (level + 1) v ++ (memberChars level ms ++ rest)))) := by
  simp [memberChars]

theorem ends_itemChars (level : Nat) (vs : List Json) (rest : List Char) :
    Ends (itemChars level vs ++ rest) := by
  cases vs with
  | nil =>
    rw [itemChars, List.append_assoc]
    exact ends_newline
  | cons v vs =>
    rw [itemChars_cons_append]
    exact ends_comma

theorem ends_memberChars (level : Nat) (ms : List (Option String × Json)) (rest : List Char) :
    Ends (memberChars level ms ++ rest) := by
  cases ms with
  | nil =>
    rw [memberChars, List.append_assoc]
    exact ends_newline
  | cons m ms =>
    rw [memberChars_cons_append]
    exact ends_comma

theorem length_itemChars_pos (level : Nat) (vs : List Json) : 0 < (itemChars level vs).length := by
  cases vs <;> simp [itemChars]

theorem length_memberChars_pos (level : Nat) (ms : List (Option String × Json)) :
    0 < (memberChars level ms).length := by
  cases ms <;> simp [memberChars]

/-- The reader takes the text of a value for this value and stops behind it. -/
def Read (level : Nat) (v : Json) : Prop :=
  ∀ fuel rest, 2 * (chars level v).length ≤ fuel → Ends rest →
    value? fuel (chars level v ++ rest) = some (v, rest)

/-- The reader takes what follows an item for the other items and stops behind the bracket. -/
def ReadItems (level : Nat) (vs : List Json) : Prop :=
  ∀ v, Read (level + 1) v → ∀ fuel rest,
    2 * ((chars (level + 1) v).length + (itemChars level vs).length) ≤ fuel →
      items? fuel (chars (level + 1) v ++ (itemChars level vs ++ rest)) = some (v :: vs, rest)

/-- The reader takes what follows a member for the other members and stops behind the brace. -/
def ReadMembers (level : Nat) (ms : List (Option String × Json)) : Prop :=
  ∀ k v, Read (level + 1) v → ∀ fuel rest,
    2 * ((chars (level + 1) v).length + (memberChars level ms).length) ≤ fuel →
      members? fuel (stringChars k ++ ':' :: ' ' ::
        (chars (level + 1) v ++ (memberChars level ms ++ rest))) = some ((k, v) :: ms, rest)

section Steps

variable {cs after after' : List Char} {ms : List (Option String × Json)} {k : Option String}

theorem items?_last (h : value? fuel cs = some (v, rest)) (hblanks : blanks rest = ']' :: after) :
    items? (fuel + 1) cs = some ([v], after) := by
  simp only [items?, h, hblanks, Option.bind_eq_bind, Option.bind_some]

theorem items?_more (h : value? fuel cs = some (v, rest)) (hblanks : blanks rest = ',' :: after)
    (hmore : items? fuel (blanks after) = some (vs, after')) :
    items? (fuel + 1) cs = some (v :: vs, after') := by
  simp only [items?, h, hblanks, hmore, Option.bind_eq_bind, Option.bind_some]

theorem value?_array (hstop : ∀ after, blanks cs ≠ ']' :: after)
    (h : items? fuel (blanks cs) = some (vs, after)) :
    value? (fuel + 1) ('[' :: cs) = some (.array vs, after) := by
  simp only [value?, h, Option.map_some]

theorem members?_last (hkey : string? cs = some (k, ':' :: after))
    (h : value? fuel (blanks after) = some (v, rest)) (hblanks : blanks rest = '}' :: after') :
    members? (fuel + 1) ('"' :: cs) = some ([(k, v)], after') := by
  have hcolon : blanks (':' :: after) = ':' :: after := rfl
  simp only [members?, hkey, hcolon, h, hblanks, Option.bind_eq_bind, Option.bind_some]

theorem members?_more {after'' : List Char} (hkey : string? cs = some (k, ':' :: after))
    (h : value? fuel (blanks after) = some (v, rest)) (hblanks : blanks rest = ',' :: after')
    (hmore : members? fuel (blanks after') = some (ms, after'')) :
    members? (fuel + 1) ('"' :: cs) = some ((k, v) :: ms, after'') := by
  have hcolon : blanks (':' :: after) = ':' :: after := rfl
  simp only [members?, hkey, hcolon, h, hblanks, hmore, Option.bind_eq_bind, Option.bind_some]

theorem value?_object (hstop : ∀ after, blanks cs ≠ '}' :: after)
    (h : members? fuel (blanks cs) = some (ms, after)) :
    value? (fuel + 1) ('{' :: cs) = some (.object ms, after) := by
  simp only [value?, h, Option.map_some]

end Steps

theorem readItems_nil : ReadItems level [] := by
  intro v hv fuel rest hfuel
  have hpos := length_itemChars_pos level []
  have hblanks : blanks (itemChars level [] ++ rest) = ']' :: rest := by
    rw [itemChars, List.append_assoc, blanks_newline]
    rfl
  cases fuel with
  | zero => omega
  | succ fuel => exact items?_last (hv fuel _ (by omega) (ends_itemChars level [] rest)) hblanks

theorem readItems_cons (hv : Read (level + 1) v) (h : ReadItems level vs) :
    ReadItems level (v :: vs) := by
  intro w hw fuel rest hfuel
  have hlength : (itemChars level (v :: vs)).length = 1 + ((newline (level + 1)).length +
      ((chars (level + 1) v).length + (itemChars level vs).length)) := by
    simp only [itemChars, List.length_cons, List.length_append]
    omega
  cases fuel with
  | zero => omega
  | succ fuel =>
    have hread := hw fuel _ (by omega) (ends_itemChars level (v :: vs) rest)
    have hblanks : blanks (itemChars level (v :: vs) ++ rest) = ',' :: (newline (level + 1) ++
        (chars (level + 1) v ++ (itemChars level vs ++ rest))) := by
      rw [itemChars_cons_append]
      rfl
    refine items?_more hread hblanks ?_
    rw [blanks_newline, blanks_chars, h v hv fuel rest (by omega)]

theorem read_array (hv : Read (level + 1) v) (h : ReadItems level vs) :
    Read level (.array (v :: vs)) := by
  intro fuel rest hfuel _
  have hchars : chars level (.array (v :: vs)) ++ rest =
      '[' :: (newline (level + 1) ++ (chars (level + 1) v ++ (itemChars level vs ++ rest))) := by
    simp [chars]
  have hlength : (chars level (.array (v :: vs))).length = 1 + ((newline (level + 1)).length +
      ((chars (level + 1) v).length + (itemChars level vs).length)) := by
    simp only [chars, List.length_cons, List.length_append]
    omega
  rw [hchars]
  cases fuel with
  | zero => omega
  | succ fuel =>
    obtain ⟨c, cs, hfirst, -, hstop⟩ := exists_chars (level + 1) v
    refine value?_array (fun after heq => ?_) ?_
    · rw [blanks_newline, blanks_chars, hfirst] at heq
      exact hstop (List.cons.inj heq).1
    · rw [blanks_newline, blanks_chars, h v hv fuel rest (by omega)]

theorem readMembers_nil : ReadMembers level [] := by
  intro k v hv fuel rest hfuel
  have hpos := length_memberChars_pos level []
  have hblanks : blanks (memberChars level [] ++ rest) = '}' :: rest := by
    rw [memberChars, List.append_assoc, blanks_newline]
    rfl
  obtain ⟨cs, hquote, hkey⟩ := string?_stringChars k
    (':' :: ' ' :: (chars (level + 1) v ++ (memberChars level [] ++ rest)))
  rw [hquote]
  cases fuel with
  | zero => omega
  | succ fuel =>
    refine members?_last hkey ?_ hblanks
    show value? fuel (blanks (chars (level + 1) v ++ _)) = _
    rw [blanks_chars, hv fuel _ (by omega) (ends_memberChars level [] rest)]

theorem readMembers_cons {k : Option String} {ms : List (Option String × Json)}
    (hv : Read (level + 1) v) (h : ReadMembers level ms) : ReadMembers level ((k, v) :: ms) := by
  intro l w hw fuel rest hfuel
  have hlength : (memberChars level ((k, v) :: ms)).length = 1 + ((newline (level + 1)).length +
      ((stringChars k).length + (2 + ((chars (level + 1) v).length + (memberChars level ms).length)))) := by
    simp only [memberChars, List.length_cons, List.length_append, List.length_nil]
    omega
  obtain ⟨cs, hquote, hkey⟩ := string?_stringChars l
    (':' :: ' ' :: (chars (level + 1) w ++ (memberChars level ((k, v) :: ms) ++ rest)))
  rw [hquote]
  cases fuel with
  | zero => omega
  | succ fuel =>
    have hread := hw fuel _ (by omega) (ends_memberChars level ((k, v) :: ms) rest)
    have hblanks : blanks (memberChars level ((k, v) :: ms) ++ rest) = ',' :: (newline (level + 1) ++
        (stringChars k ++ ':' :: ' ' :: (chars (level + 1) v ++ (memberChars level ms ++ rest)))) := by
      rw [memberChars_cons_append]
      rfl
    refine members?_more hkey ?_ hblanks ?_
    · show value? fuel (blanks (chars (level + 1) w ++ _)) = _
      rw [blanks_chars, hread]
    · rw [blanks_newline, blanks_stringChars, h k v hv fuel rest (by omega)]

theorem read_object {k : Option String} {ms : List (Option String × Json)} (hv : Read (level + 1) v)
    (h : ReadMembers level ms) : Read level (.object ((k, v) :: ms)) := by
  intro fuel rest hfuel _
  have hchars : chars level (.object ((k, v) :: ms)) ++ rest =
      '{' :: (newline (level + 1) ++ (stringChars k ++ ':' :: ' ' ::
        (chars (level + 1) v ++ (memberChars level ms ++ rest)))) := by
    simp [chars]
  have hlength : (chars level (.object ((k, v) :: ms))).length = 1 + ((newline (level + 1)).length +
      ((stringChars k).length + (2 + ((chars (level + 1) v).length + (memberChars level ms).length)))) := by
    simp only [chars, List.length_cons, List.length_append, List.length_nil]
    omega
  rw [hchars]
  cases fuel with
  | zero => omega
  | succ fuel =>
    refine value?_object (fun after heq => ?_) ?_
    · rw [blanks_newline, blanks_stringChars] at heq
      obtain ⟨cs, hquote, -⟩ := string?_stringChars k (':' :: ' ' ::
        (chars (level + 1) v ++ (memberChars level ms ++ rest)))
      rw [hquote] at heq
      cases heq
    · rw [blanks_newline, blanks_stringChars, h k v hv fuel rest (by omega)]

/-- What has no parts is read as soon as there is fuel. -/
theorem read_of_succ (h : ∀ fuel rest, Ends rest →
    value? (fuel + 1) (chars level v ++ rest) = some (v, rest)) : Read level v := by
  intro fuel rest hfuel hends
  obtain ⟨c, cs, heq, -⟩ := exists_chars level v
  cases fuel with
  | zero => simp [heq] at hfuel
  | succ fuel => exact h fuel rest hends

theorem read_text (s : Option String) : Read level (.text s) := by
  refine read_of_succ fun fuel rest _ => ?_
  obtain ⟨cs, hquote, hstring⟩ := string?_stringChars s rest
  rw [chars, hquote]
  show (string? cs).map _ = _
  rw [hstring]
  rfl

theorem read_number : Read level .number := by
  refine read_of_succ fun fuel rest hends => ?_
  show (whole? ('0' :: rest) >>= _) = _
  cases rest with
  | nil => rfl
  | cons c rest => rcases hends c rfl with rfl | rfl <;> rfl

mutual

theorem read (level : Nat) : ∀ v, Read level v
  | .null => read_of_succ fun _ _ _ => rfl
  | .bool true => read_of_succ fun _ _ _ => rfl
  | .bool false => read_of_succ fun _ _ _ => rfl
  | .natural n => read_of_succ fun _ _ h => value?_natural n h
  | .number => read_number
  | .text s => read_text s
  | .array [] => read_of_succ fun _ _ _ => rfl
  | .array (v :: vs) => read_array (read (level + 1) v) (readItems level vs)
  | .object [] => read_of_succ fun _ _ _ => rfl
  | .object ((_, v) :: ms) => read_object (read (level + 1) v) (readMembers level ms)

theorem readItems (level : Nat) : ∀ vs, ReadItems level vs
  | [] => readItems_nil
  | v :: vs => readItems_cons (read (level + 1) v) (readItems level vs)

theorem readMembers (level : Nat) : ∀ ms, ReadMembers level ms
  | [] => readMembers_nil
  | (_, v) :: ms => readMembers_cons (read (level + 1) v) (readMembers level ms)

end

/-- The text of a value is read back as the value. -/
theorem parse?_print (v : Json) : parse? (print v) = some v := by
  unfold parse? print
  dsimp only
  rw [String.toList_ofList]
  have hblanks := blanks_chars 0 v []
  have hread := read 0 v (2 * ((chars 0 v).length + 1)) [] (by omega) nofun
  rw [List.append_nil] at hblanks hread
  rw [hblanks, hread]
  rfl

end PetriNets.Json
