import PetriNets.Proofs.Format.Ron.Parts

/-!
# Reading RON values that have been written

The text of a value is read back as this value, and the reader stops where the text ends, if the value is
`Legible`: nested no deeper than a reader goes. Words, numbers and texts are legible, and so are lists, maps,
records without names and single values in parentheses, each one or two levels deeper than its parts. The
text of a value that is legible at the greatest depth is read back as a whole (`parse?_print`).

The text of a value is never shorter than a third of the fuel that reading it takes: a value in parentheses
takes three units, and has two characters more than what it holds.
-/

namespace PetriNets.Ron

variable {level depth fuel : Nat} {v k : Ron} {vs : List Ron} {name : String} {c : Char}
  {cs rest after after' : List Char}

/-! ## One part of a value -/

theorem value?_text (s : String) (rest : List Char) :
    value? (fuel + 1) depth (Text.quotedChars s.toList ++ rest) = some (.text s, rest) := by
  obtain ⟨cs, hquote, hstring⟩ := string?_quotedChars s rest
  rw [hquote]
  unfold value?
  rw [name?_eq_none (by decide)]
  show (string? cs).map _ = _
  rw [hstring]
  rfl

theorem mem_openers_of_isDigit (h : c.isDigit = true) : c ∈ openers := by
  have hrange : 48 ≤ c.val ∧ c.val ≤ 57 := by simpa [Char.isDigit] using h
  have hdigits : ∀ n ≤ 57, 48 ≤ n → Char.ofNat n ∈ openers := by decide
  have hc := hdigits c.toNat (UInt32.le_iff_toNat_le.1 hrange.2) (UInt32.le_iff_toNat_le.1 hrange.1)
  rwa [Char.ofNat_toNat] at hc

theorem value?_natural (n : Nat) (h : Ends rest) :
    value? (fuel + 1) depth (Text.decimalChars n ++ rest) = some (.natural n, rest) := by
  have hnumber := number?_decimalChars n h
  obtain ⟨c, cs, hchars, hdigit, -⟩ := Text.exists_decimalChars n
  rw [hchars, List.cons_append] at hnumber ⊢
  unfold value?
  rw [name?_eq_none (mem_openers_of_isDigit hdigit)]
  dsimp only
  split
  -- nothing else that a value may begin with is a digit
  case h_10 => exact hnumber
  all_goals
    next heq =>
      obtain ⟨rfl, -⟩ := List.cons.inj heq
      cases hdigit

/-- Behind a name that is not `Some` may stand parentheses; if not, the name is a word. -/
theorem value?_name (hname : name? cs = some (name, rest)) (hsome : name ≠ "Some") :
    value? (fuel + 1) depth cs =
      if soleWords.contains name then some (.word name, rest)
      else (blanks? rest).bind fun
        | '(' :: rest => (blanks? rest).bind (body? fuel depth (some name))
        | _ => some (.word name, rest) := by
  unfold value?
  rw [hname]
  split
  · next heq =>
    obtain ⟨rfl, -⟩ := Prod.mk.inj (Option.some.inj heq)
    exact absurd rfl hsome
  · next heq =>
    obtain ⟨rfl, rfl⟩ := Prod.mk.inj (Option.some.inj heq)
    rfl
  · next heq => cases heq

theorem value?_word (hplain : isPlain name = true) (hsome : name ≠ "Some") (h : Ends rest) :
    value? (fuel + 1) depth (nameChars name ++ rest) = some (.word name, rest) := by
  rw [value?_name (name?_nameChars hplain h.stops_identifier) hsome, h.blanks?]
  split
  · rfl
  · rw [Option.bind_some]
    split
    · next rest =>
      have hno : '(' ∉ [',', ':', ')'] := by decide
      exact absurd (h '(' rfl) hno
    · rfl

theorem value?_parenthesis (hcs : blanks? cs = some rest) :
    value? (fuel + 1) depth ('(' :: cs) = body? fuel depth none rest := by
  unfold value?
  rw [name?_eq_none (by decide)]
  show (blanks? cs >>= _) = _
  rw [hcs]
  rfl

theorem value?_list (hcs : blanks? cs = some rest) (h : items? fuel depth ']' rest = some (vs, after)) :
    value? (fuel + 1) (depth + 1) ('[' :: cs) = some (.list vs, after) := by
  unfold value?
  rw [name?_eq_none (by decide)]
  show (blanks? cs >>= fun rest => items? fuel depth ']' rest >>= _) = _
  rw [hcs, Option.bind_eq_bind, Option.bind_some, h]
  rfl

theorem value?_map {es : List (Ron × Ron)} (hcs : blanks? cs = some rest)
    (h : entries? fuel depth rest = some (es, after)) :
    value? (fuel + 1) (depth + 1) ('{' :: cs) = some (.map es, after) := by
  unfold value?
  rw [name?_eq_none (by decide)]
  show (blanks? cs >>= fun rest => entries? fuel depth rest >>= _) = _
  rw [hcs, Option.bind_eq_bind, Option.bind_some, h]
  rfl

theorem endsWith_self (stop : Char) (rest : List Char) : endsWith stop (stop :: rest) = some rest :=
  if_pos rfl

theorem value?_some (hname : name? cs = some ("Some", '(' :: after)) (hafter : blanks? after = some rest)
    (h : value? fuel depth rest = some (v, ')' :: after')) :
    value? (fuel + 1) (depth + 1) cs = some (.tuple (some "Some") [v], after') := by
  have hparenthesis : ∀ cs, blanks? ('(' :: cs) = some ('(' :: cs) := fun cs => rfl
  have hclose : blanks? (')' :: after') = some (')' :: after') := rfl
  unfold value?
  rw [hname]
  simp only [hparenthesis, hafter, h, hclose, Option.bind_eq_bind, Option.bind_some,
    Nat.add_one_sub_one, Nat.add_one_ne_zero, if_false]
  show (endsWith ')' (')' :: after')).bind _ = _
  rw [endsWith_self]
  rfl

/-! ## Items, entries and fields -/

theorem items?_end (stop : Char) (rest : List Char) :
    items? (fuel + 1) depth stop (stop :: rest) = some ([], rest) := by
  unfold items?
  rw [endsWith_self]

theorem items?_last (hstop : endsWith ')' cs = none) (h : value? fuel depth cs = some (v, ')' :: rest)) :
    items? (fuel + 1) (depth + 1) ')' cs = some ([v], rest) := by
  have hclose : blanks? (')' :: rest) = some (')' :: rest) := rfl
  unfold items?
  simp only [hstop, h, hclose, Option.bind_eq_bind, Option.bind_some, Nat.add_one_sub_one,
    Nat.add_one_ne_zero, if_false]
  show (endsWith ')' (')' :: rest)).bind _ = _
  rw [endsWith_self]
  rfl

theorem items?_more {stop : Char} (hstop : endsWith stop cs = none)
    (h : value? fuel depth cs = some (v, ',' :: after)) (hafter : blanks? after = some after')
    (hmore : items? fuel (depth + 1) stop after' = some (vs, rest)) :
    items? (fuel + 1) (depth + 1) stop cs = some (v :: vs, rest) := by
  have hcomma : blanks? (',' :: after) = some (',' :: after) := rfl
  unfold items?
  simp only [hstop, h, hcomma, hafter, hmore, Option.bind_eq_bind, Option.bind_some,
    Nat.add_one_sub_one, Nat.add_one_ne_zero, if_false]

theorem entries?_end (rest : List Char) :
    entries? (fuel + 1) depth ('}' :: rest) = some ([], rest) := by
  unfold entries?
  rw [endsWith_self]

theorem entries?_more {es : List (Ron × Ron)} {cs' : List Char} (hstop : endsWith '}' cs = none)
    (hkey : value? fuel depth cs = some (k, ':' :: ' ' :: cs')) (hcs : blanks? cs' = some cs')
    (h : value? fuel depth cs' = some (v, ',' :: after)) (hafter : blanks? after = some after')
    (hmore : entries? fuel (depth + 1) after' = some (es, rest)) :
    entries? (fuel + 1) (depth + 1) cs = some ((k, v) :: es, rest) := by
  have hcolon : blanks? (':' :: ' ' :: cs') = some (':' :: ' ' :: cs') := rfl
  have hcomma : blanks? (',' :: after) = some (',' :: after) := rfl
  unfold entries?
  simp only [hstop, hkey, hcolon, blanks?_space, hcs, h, hcomma, hafter, hmore, Option.bind_eq_bind,
    Option.bind_some, Nat.add_one_sub_one, Nat.add_one_ne_zero, if_false, endsWith_self]

theorem fields?_end (rest : List Char) :
    fields? (fuel + 1) depth (')' :: rest) = some ([], rest) := by
  unfold fields?
  rw [endsWith_self]

theorem fields?_more {fs : List (String × Ron)} {cs' : List Char} (hstop : endsWith ')' cs = none)
    (hname : name? cs = some (name, ':' :: ' ' :: cs')) (hcs : blanks? cs' = some cs')
    (h : value? fuel depth cs' = some (v, ',' :: after)) (hafter : blanks? after = some after')
    (hmore : fields? fuel (depth + 1) after' = some (fs, rest)) :
    fields? (fuel + 1) (depth + 1) cs = some ((name, v) :: fs, rest) := by
  have hcolon : blanks? (':' :: ' ' :: cs') = some (':' :: ' ' :: cs') := rfl
  have hcomma : blanks? (',' :: after) = some (',' :: after) := rfl
  unfold fields?
  simp only [hstop, hname, hcolon, blanks?_space, hcs, h, hcomma, hafter, hmore, Option.bind_eq_bind,
    Option.bind_some, Nat.add_one_sub_one, Nat.add_one_ne_zero, if_false, endsWith_self]

theorem beginsRecord_of_name (h : name? cs = some (name, ':' :: rest)) : beginsRecord cs = true := by
  unfold beginsRecord
  rw [h]
  rfl

theorem body?_record {fs : List (String × Ron)} {type : Option String} (hbegins : beginsRecord cs = true)
    (h : fields? fuel depth cs = some (fs, rest)) :
    body? (fuel + 1) (depth + 1) type cs = some (.record type fs, rest) := by
  unfold body?
  rw [if_neg (Nat.add_one_ne_zero depth), if_pos hbegins, Nat.add_one_sub_one, h]
  rfl

theorem body?_tuple {type : Option String} (hbegins : beginsRecord cs = false)
    (h : items? fuel depth ')' cs = some (vs, rest)) :
    body? (fuel + 1) (depth + 1) type cs = some (.tuple type vs, rest) := by
  unfold body?
  rw [if_neg (Nat.add_one_ne_zero depth), if_neg (Bool.eq_false_iff.1 hbegins), Nat.add_one_sub_one, h]
  rfl

/-! ## Whole values -/

/-- A character with which a value may begin: no blank and no comment, and nothing that closes a value or
begins an attribute. -/
def Begins (c : Char) : Prop := isBlank c = false ∧ c ∉ ['/', '#', ']', '}', ')']

instance (c : Char) : Decidable (Begins c) := inferInstanceAs (Decidable (_ ∧ _))

theorem begins_of_mem_openers (h : c ∈ openers) : Begins c := by
  have hall : ∀ c ∈ openers, Begins c := List.all_iff_forall_prop.1 (by decide)
  exact hall c h

theorem begins_of_isAlpha (h : c.isAlpha = true) : Begins c := by
  have hsigns : ∀ d ∈ ['/', '#', ']', '}', ')'], d.isAlpha = false :=
    List.all_iff_forall_prop.1 (by decide)
  have hblanks : ∀ d ∈ [' ', '\t', '\n', '\r', '\x0b', '\x0c', '\u0085', '\u200e', '\u200f', '\u2028',
      '\u2029'], d.isAlpha = false := List.all_iff_forall_prop.1 (by decide)
  refine ⟨Bool.eq_false_iff.2 fun hmem => ?_, fun hmem => ?_⟩
  · rw [hblanks c (List.contains_iff_mem.1 hmem)] at h
    cases h
  · rw [hsigns c hmem] at h
    cases h

theorem Begins.blanks? (h : Begins c) (cs : List Char) : Ron.blanks? (c :: cs) = some (c :: cs) := by
  refine blanks?_cons h.1 ?_ cs
  rintro rfl
  exact h.2 List.mem_cons_self

theorem Begins.endsWith (h : Begins c) {stop : Char} (hstop : stop ∈ [']', '}', ')']) (cs : List Char) :
    Ron.endsWith stop (c :: cs) = none := by
  refine if_neg ?_
  rintro rfl
  exact h.2 (List.mem_cons_of_mem _ (List.mem_cons_of_mem _ hstop))

/-- A value nested at most so deep is read back from its text, at whatever level it is written and
whatever follows it. -/
structure Legible (depth : Nat) (v : Ron) : Prop where
  begins : ∀ level, ∃ c cs, chars level v = c :: cs ∧ Begins c
  read : ∀ level fuel rest, 3 * (chars level v).length ≤ fuel → Ends rest →
    value? fuel depth (chars level v ++ rest) = some (v, rest)

theorem Legible.blanks? (h : Legible depth v) (level : Nat) (rest : List Char) :
    Ron.blanks? (chars level v ++ rest) = some (chars level v ++ rest) := by
  obtain ⟨c, cs, heq, hc⟩ := h.begins level
  rw [heq]
  exact hc.blanks? _

theorem Legible.endsWith (h : Legible depth v) {stop : Char} (hstop : stop ∈ [']', '}', ')'])
    (level : Nat) (rest : List Char) : Ron.endsWith stop (chars level v ++ rest) = none := by
  obtain ⟨c, cs, heq, hc⟩ := h.begins level
  rw [heq]
  exact hc.endsWith hstop _

/-- The name reads as a field and the value of the field is nested no deeper than this. -/
def LegibleField (depth : Nat) (f : String × Ron) : Prop := isPlain f.1 = true ∧ Legible depth f.2

theorem legibleField (hname : isPlain name = true) (h : Legible depth v) :
    LegibleField depth (name, v) := ⟨hname, h⟩

/-- What has no parts is read as soon as there is fuel. -/
theorem legible_of_succ (hbegins : ∀ level, ∃ c cs, chars level v = c :: cs ∧ Begins c)
    (h : ∀ level fuel rest, Ends rest →
      value? (fuel + 1) depth (chars level v ++ rest) = some (v, rest)) : Legible depth v := by
  refine ⟨hbegins, fun level fuel rest hfuel hends => ?_⟩
  obtain ⟨c, cs, heq, -⟩ := hbegins level
  cases fuel with
  | zero => simp [heq] at hfuel
  | succ fuel => exact h level fuel rest hends

theorem begins_decimalChars (n : Nat) :
    ∃ c cs, Text.decimalChars n = c :: cs ∧ c ∈ openers := by
  obtain ⟨c, cs, hchars, hdigit, -⟩ := Text.exists_decimalChars n
  exact ⟨c, cs, hchars, mem_openers_of_isDigit hdigit⟩

theorem legible_natural (depth n : Nat) : Legible depth (.natural n) := by
  refine legible_of_succ (fun level => ?_) fun level fuel rest h => value?_natural n h
  obtain ⟨c, cs, hchars, hc⟩ := begins_decimalChars n
  exact ⟨c, cs, hchars, begins_of_mem_openers hc⟩

theorem legible_text (depth : Nat) (s : String) : Legible depth (.text s) :=
  legible_of_succ (fun _ => ⟨'"', _, rfl, by decide⟩) fun _ _ rest _ => value?_text s rest

theorem begins_nameChars (hplain : isPlain name = true) :
    ∃ c cs, nameChars name = c :: cs ∧ Begins c := by
  obtain ⟨c, cs, heq, hc, -⟩ := exists_of_isPlain hplain
  exact ⟨c, cs, (nameChars_of_isPlain hplain).trans heq, begins_of_isAlpha hc⟩

theorem legible_word (depth : Nat) (hplain : isPlain name = true) (hsome : name ≠ "Some") :
    Legible depth (.word name) :=
  legible_of_succ (fun _ => begins_nameChars hplain) fun _ _ _ h => value?_word hplain hsome h

/-- Items are read one after the other, and then the bracket. -/
theorem items?_itemChars (h : ∀ v ∈ vs, Legible depth v) (hfuel : 3 * (itemChars level vs).length ≤ fuel)
    (rest : List Char) : ∃ cs, blanks? (itemChars level vs ++ rest) = some cs ∧
      items? fuel (depth + 1) ']' cs = some (vs, rest) := by
  induction vs generalizing fuel with
  | nil =>
    cases fuel with
    | zero => simp [itemChars] at hfuel
    | succ fuel =>
      refine ⟨']' :: rest, ?_, items?_end ']' rest⟩
      rw [itemChars, List.append_assoc, blanks?_newline]
      rfl
  | cons v vs ih =>
    obtain ⟨hv, hvs⟩ := List.forall_mem_cons.1 h
    have hlength : (itemChars level (v :: vs)).length = (newline (level + 1)).length +
        ((chars (level + 1) v).length + (1 + (itemChars level vs).length)) := by
      simp only [itemChars, List.length_append, List.length_cons, List.length_nil]
      omega
    have hchars : itemChars level (v :: vs) ++ rest =
        newline (level + 1) ++ (chars (level + 1) v ++ ',' :: (itemChars level vs ++ rest)) := by
      simp [itemChars]
    cases fuel with
    | zero => omega
    | succ fuel =>
      have hrest : 3 * (itemChars level vs).length ≤ fuel := by omega
      obtain ⟨after, hafter, hmore⟩ := ih hvs hrest
      have hread := hv.read (level + 1) fuel (',' :: (itemChars level vs ++ rest)) (by omega)
        (ends_cons (by decide))
      rw [hchars, blanks?_newline]
      exact ⟨_, hv.blanks? _ _, items?_more (hv.endsWith (by decide) _ _) hread hafter hmore⟩

theorem legible_list (h : ∀ v ∈ vs, Legible depth v) : Legible (depth + 2) (.list vs) := by
  refine ⟨fun level => ?_, fun level fuel rest hfuel _ => ?_⟩
  · cases vs <;> exact ⟨'[', _, rfl, by decide⟩
  · cases fuel with
    | zero => cases vs <;> simp [chars] at hfuel
    | succ fuel =>
      cases vs with
      | nil =>
        cases fuel with
        | zero => simp [chars] at hfuel
        | succ fuel => exact value?_list rfl (items?_end ']' rest)
      | cons v vs =>
        have hchars : chars level (.list (v :: vs)) = '[' :: itemChars level (v :: vs) := by
          simp [chars, itemChars]
        rw [hchars, List.length_cons] at hfuel
        have hrest : 3 * (itemChars level (v :: vs)).length ≤ fuel := by omega
        obtain ⟨cs, hcs, hitems⟩ := items?_itemChars h hrest rest
        rw [hchars]
        exact value?_list hcs hitems

theorem entries?_entryChars {es : List (Ron × Ron)}
    (h : ∀ e ∈ es, Legible depth e.1 ∧ Legible depth e.2)
    (hfuel : 3 * (entryChars level es).length ≤ fuel) (rest : List Char) :
    ∃ cs, blanks? (entryChars level es ++ rest) = some cs ∧
      entries? fuel (depth + 1) cs = some (es, rest) := by
  induction es generalizing fuel with
  | nil =>
    cases fuel with
    | zero => simp [entryChars] at hfuel
    | succ fuel =>
      refine ⟨'}' :: rest, ?_, entries?_end rest⟩
      rw [entryChars, List.append_assoc, blanks?_newline]
      rfl
  | cons e es ih =>
    obtain ⟨k, v⟩ := e
    obtain ⟨hentry, hes⟩ := List.forall_mem_cons.1 h
    obtain ⟨hk, hv⟩ : Legible depth k ∧ Legible depth v := hentry
    have hlength : (entryChars level ((k, v) :: es)).length = (newline (level + 1)).length +
        ((chars (level + 1) k).length + (2 + ((chars (level + 1) v).length +
          (1 + (entryChars level es).length)))) := by
      simp only [entryChars, List.length_append, List.length_cons, List.length_nil]
      omega
    have hchars : entryChars level ((k, v) :: es) ++ rest =
        newline (level + 1) ++ (chars (level + 1) k ++ ':' :: ' ' ::
          (chars (level + 1) v ++ ',' :: (entryChars level es ++ rest))) := by
      simp [entryChars]
    cases fuel with
    | zero => omega
    | succ fuel =>
      have hrest : 3 * (entryChars level es).length ≤ fuel := by omega
      obtain ⟨after, hafter, hmore⟩ := ih hes hrest
      have hread := hv.read (level + 1) fuel (',' :: (entryChars level es ++ rest)) (by omega)
        (ends_cons (by decide))
      have hkey := hk.read (level + 1) fuel (':' :: ' ' ::
        (chars (level + 1) v ++ ',' :: (entryChars level es ++ rest))) (by omega) (ends_cons (by decide))
      rw [hchars, blanks?_newline]
      exact ⟨_, hk.blanks? _ _,
        entries?_more (hk.endsWith (by decide) _ _) hkey (hv.blanks? _ _) hread hafter hmore⟩

theorem legible_map {es : List (Ron × Ron)} (h : ∀ e ∈ es, Legible depth e.1 ∧ Legible depth e.2) :
    Legible (depth + 2) (.map es) := by
  refine ⟨fun level => ?_, fun level fuel rest hfuel _ => ?_⟩
  · cases es <;> exact ⟨'{', _, rfl, by decide⟩
  · cases fuel with
    | zero => cases es <;> simp [chars] at hfuel
    | succ fuel =>
      cases es with
      | nil =>
        cases fuel with
        | zero => simp [chars] at hfuel
        | succ fuel => exact value?_map rfl (entries?_end rest)
      | cons e es =>
        obtain ⟨k, v⟩ := e
        have hchars : chars level (.map ((k, v) :: es)) = '{' :: entryChars level ((k, v) :: es) := by
          simp [chars, entryChars]
        rw [hchars, List.length_cons] at hfuel
        have hrest : 3 * (entryChars level ((k, v) :: es)).length ≤ fuel := by omega
        obtain ⟨cs, hcs, hentries⟩ := entries?_entryChars h hrest rest
        rw [hchars]
        exact value?_map hcs hentries

/-- Fields are read one after the other, and then the parenthesis. -/
theorem fields?_fieldChars {fs : List (String × Ron)} (h : ∀ f ∈ fs, LegibleField depth f)
    (hfuel : 3 * (fieldChars level fs).length ≤ fuel) (rest : List Char) :
    ∃ cs, blanks? (fieldChars level fs ++ rest) = some cs ∧ (fs ≠ [] → beginsRecord cs = true) ∧
      fields? fuel (depth + 1) cs = some (fs, rest) := by
  -- that a record begins here is carried along, since without fields it reads as an empty tuple
  induction fs generalizing fuel with
  | nil =>
    cases fuel with
    | zero => simp [fieldChars] at hfuel
    | succ fuel =>
      refine ⟨')' :: rest, ?_, fun hne => absurd rfl hne, fields?_end rest⟩
      rw [fieldChars, List.append_assoc, blanks?_newline]
      rfl
  | cons f fs ih =>
    obtain ⟨k, v⟩ := f
    obtain ⟨hfield, hfs⟩ := List.forall_mem_cons.1 h
    obtain ⟨hk, hv⟩ : isPlain k = true ∧ Legible depth v := hfield
    have hlength : (fieldChars level ((k, v) :: fs)).length = (newline (level + 1)).length +
        ((nameChars k).length + (2 + ((chars (level + 1) v).length +
          (1 + (fieldChars level fs).length)))) := by
      simp only [fieldChars, List.length_append, List.length_cons, List.length_nil]
      omega
    have hchars : fieldChars level ((k, v) :: fs) ++ rest =
        newline (level + 1) ++ (nameChars k ++ ':' :: ' ' ::
          (chars (level + 1) v ++ ',' :: (fieldChars level fs ++ rest))) := by
      simp [fieldChars]
    cases fuel with
    | zero => omega
    | succ fuel =>
      have hrest : 3 * (fieldChars level fs).length ≤ fuel := by omega
      obtain ⟨after, hafter, -, hmore⟩ := ih hfs hrest
      have hread := hv.read (level + 1) fuel (',' :: (fieldChars level fs ++ rest)) (by omega)
        (ends_cons (by decide))
      have hcolon : Ends (':' :: ' ' ::
        (chars (level + 1) v ++ ',' :: (fieldChars level fs ++ rest))) := ends_cons (by decide)
      have hname := name?_nameChars hk hcolon.stops_identifier
      obtain ⟨c, cs, heq, hc⟩ := begins_nameChars hk
      rw [hchars, blanks?_newline]
      rw [heq, List.cons_append] at hname ⊢
      exact ⟨_, hc.blanks? _, fun _ => beginsRecord_of_name hname,
        fields?_more (hc.endsWith (by decide) _) hname (hv.blanks? _ _) hread hafter hmore⟩

theorem legible_record {fs : List (String × Ron)} (hne : fs ≠ [])
    (h : ∀ f ∈ fs, LegibleField depth f) : Legible (depth + 2) (.record none fs) := by
  refine ⟨fun level => ?_, fun level fuel rest hfuel _ => ?_⟩
  · cases fs <;> exact ⟨'(', _, rfl, by decide⟩
  · cases fs with
    | nil => exact absurd rfl hne
    | cons f fs =>
      obtain ⟨k, v⟩ := f
      have hchars : chars level (.record none ((k, v) :: fs)) =
          '(' :: fieldChars level ((k, v) :: fs) := by
        simp [chars, fieldChars, nameChars]
      rw [hchars, List.length_cons] at hfuel
      rw [hchars]
      obtain ⟨f, rfl⟩ : ∃ f, fuel = f + 2 := ⟨fuel - 2, by omega⟩
      have hrest : 3 * (fieldChars level ((k, v) :: fs)).length ≤ f := by omega
      obtain ⟨cs, hcs, hbegins, hfields⟩ := fields?_fieldChars h hrest rest
      rw [List.cons_append, value?_parenthesis hcs]
      exact body?_record (hbegins (List.cons_ne_nil _ _)) hfields

/-! ## One value in parentheses -/

/-- Whatever the level, the text of the value does not begin with a name. -/
def Unnamed (v : Ron) : Prop := ∀ level, ∃ c cs, chars level v = c :: cs ∧ c ∈ openers

theorem unnamed_natural (n : Nat) : Unnamed (.natural n) := fun _ => begins_decimalChars n

theorem unnamed_list (vs : List Ron) : Unnamed (.list vs) := by
  intro level
  cases vs <;> exact ⟨'[', _, rfl, by decide⟩

theorem body?_one (type : Option String) (h : Legible depth v) (hunnamed : Unnamed v)
    (hfuel : 3 * (chars level v).length ≤ fuel) (rest : List Char) :
    ∃ cs, blanks? (chars level v ++ ')' :: rest) = some cs ∧
      body? (fuel + 2) (depth + 2) type cs = some (.tuple type [v], rest) := by
  have hread := h.read level fuel (')' :: rest) hfuel (ends_cons (by decide))
  obtain ⟨c, cs, heq, hc⟩ := hunnamed level
  have hbegins := begins_of_mem_openers hc
  rw [heq, List.cons_append] at hread ⊢
  refine ⟨_, hbegins.blanks? _, body?_tuple ?_ (items?_last (hbegins.endsWith (by decide) _) hread)⟩
  unfold beginsRecord
  rw [name?_eq_none hc]

theorem legible_wrapped (h : Legible depth v) (hunnamed : Unnamed v) :
    Legible (depth + 2) (.tuple none [v]) := by
  have hchars : ∀ level, chars level (.tuple none [v]) = '(' :: (chars level v ++ [')']) := by
    intro level
    simp [chars, tupleChars, nameChars]
  refine ⟨fun level => ⟨'(', _, hchars level, by decide⟩, fun level fuel rest hfuel _ => ?_⟩
  rw [hchars, List.length_cons, List.length_append, List.length_singleton] at hfuel
  obtain ⟨f, rfl⟩ : ∃ f, fuel = f + 3 := ⟨fuel - 3, by omega⟩
  have hrest : 3 * (chars level v).length ≤ f := by omega
  obtain ⟨cs, hcs, hbody⟩ := body?_one none h hunnamed hrest rest
  rw [hchars, List.cons_append, List.append_assoc]
  exact (value?_parenthesis hcs).trans hbody

theorem stops_parenthesis (cs : List Char) : Text.Stops Text.isIdentifierRest ('(' :: cs) := by
  refine Text.stops_cons ?_
  rw [isIdentifierRest_ascii (by decide)]
  rfl

theorem legible_case (hplain : isPlain name = true) (hsome : name ≠ "Some") (hsole : name ∉ soleWords)
    (h : Legible depth v) (hunnamed : Unnamed v) : Legible (depth + 2) (.tuple (some name) [v]) := by
  have hchars : ∀ level, chars level (.tuple (some name) [v]) =
      nameChars name ++ '(' :: (chars level v ++ [')']) := by
    intro level
    simp [chars, tupleChars]
  obtain ⟨c, cs, heq, hc⟩ := begins_nameChars hplain
  refine ⟨fun level => ?_, fun level fuel rest hfuel _ => ?_⟩
  · rw [hchars, heq]
    exact ⟨c, _, rfl, hc⟩
  · rw [hchars, List.length_append, List.length_cons, List.length_append, List.length_singleton] at hfuel
    obtain ⟨f, rfl⟩ : ∃ f, fuel = f + 3 := ⟨fuel - 3, by omega⟩
    have hrest : 3 * (chars level v).length ≤ f := by omega
    obtain ⟨cs, hcs, hbody⟩ := body?_one (some name) h hunnamed hrest rest
    have hsole' : soleWords.contains name = false := Bool.eq_false_iff.2 (mt List.contains_iff_mem.1 hsole)
    rw [hchars, List.append_assoc, List.cons_append, List.append_assoc, List.singleton_append,
      value?_name (name?_nameChars hplain (stops_parenthesis _)) hsome, hsole',
      if_neg Bool.false_ne_true, blanks?_cons (by decide) (by decide), Option.bind_some]
    show (blanks? _).bind _ = _
    rw [hcs]
    exact hbody

theorem legible_some (h : Legible depth v) : Legible (depth + 1) (.tuple (some "Some") [v]) := by
  have hchars : ∀ level, chars level (.tuple (some "Some") [v]) =
      nameChars "Some" ++ '(' :: (chars level v ++ [')']) := by
    intro level
    simp [chars, tupleChars]
  refine ⟨fun level => ?_, fun level fuel rest hfuel _ => ?_⟩
  · rw [hchars]
    exact ⟨'S', _, rfl, by decide⟩
  · rw [hchars, List.length_append, List.length_cons, List.length_append, List.length_singleton] at hfuel
    rw [hchars, List.append_assoc, List.cons_append, List.append_assoc, List.singleton_append]
    cases fuel with
    | zero => omega
    | succ fuel =>
      have hread := h.read level fuel (')' :: rest) (by omega) (ends_cons (by decide))
      exact value?_some (name?_nameChars (by decide) (stops_parenthesis _)) (h.blanks? _ _) hread

/-- A text that begins with a value has no attributes. -/
theorem Begins.attributes? (h : Begins c) (switches : Switches) (cs : List Char) :
    switches.attributes? (fuel + 1) (c :: cs) = some (switches, c :: cs) := by
  unfold Switches.attributes?
  split
  · next heq =>
    obtain ⟨rfl, -⟩ := List.cons.inj heq
    exact absurd (List.mem_cons_of_mem _ List.mem_cons_self) h.2
  · rfl

/-- The text of a value that is nested no deeper than a text may be is read back as the value. -/
theorem parse?_print (h : Legible maxDepth v) : parse? (print v) = some (.off, v) := by
  have hread := h.read 0 (3 * ((chars 0 v).length + 1)) [] (by omega) ends_nil
  obtain ⟨c, cs, heq, hc⟩ := h.begins 0
  rw [List.append_nil, heq] at hread
  unfold parse? print
  rw [String.toList_ofList, heq, hc.blanks?, Option.bind_eq_bind, Option.bind_some, hc.attributes?,
    Option.bind_eq_bind, Option.bind_some]
  dsimp only
  rw [hread]
  rfl

end PetriNets.Ron
