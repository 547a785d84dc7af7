import PetriNets.Format.Basic
import PetriNets.Format.Toml.Basic
import PetriNets.Text.Digits

/-!
# TOML text

The reader of TOML 1.0: a text is a list of lines, each of which assigns a value to a key or opens a
table. `Toml.reader` reads documents from tables; there is nothing that writes them.
-/

namespace PetriNets.Toml

/-! ## Lines and keys -/

/-- Passes over blanks and tabs. -/
def blanks (cs : List Char) : List Char := cs.dropWhile fun c => c == ' ' || c == '\t'

/-- Whether strings and comments must not hold the character as it is. -/
def isControl (c : Char) : Bool := (c.toNat < 0x20 && c != '\t') || c.toNat == 0x7f

/-- Passes over the end of a line. -/
def newline? : List Char → Option (List Char)
  | '\n' :: rest => some rest
  | '\r' :: '\n' :: rest => some rest
  | _ => none

/-- Passes over a comment up to the end of its line, if there is one. -/
def comment : List Char → List Char
  | '#' :: rest => rest.dropWhile fun c => !isControl c
  | cs => cs

/-- Passes over blanks, a comment, and the end of the line or of the text. -/
def lineEnd? (cs : List Char) : Option (List Char) :=
  match comment (blanks cs) with
  | [] => some []
  | cs => newline? cs

/-- Passes over blanks, comments and ends of lines; each line takes one unit of fuel. -/
def emptyLines : Nat → List Char → List Char
  | 0, cs => cs
  | fuel + 1, cs =>
    match newline? (comment (blanks cs)) with
    | some rest => emptyLines fuel rest
    | none => comment (blanks cs)

/-- Whether a key without quotes may hold the character. -/
def isKeyChar (c : Char) : Bool := c.isAlphanum || c == '_' || c == '-'

/-! ## Strings -/

/-- Reads the character of a number with the given count of digits. -/
def charNumber? (digits : Nat) (cs : List Char) : Option (Char × List Char) := do
  if cs.length < digits then none
  else
    let n ← Text.number? 16 0 (cs.take digits)
    if n.isValidChar then some (Char.ofNat n, cs.drop digits) else none

/-- Reads an escape after its backslash. -/
def escape? : List Char → Option (Char × List Char)
  | 'b' :: rest => some ('\x08', rest)
  | 't' :: rest => some ('\t', rest)
  | 'n' :: rest => some ('\n', rest)
  | 'f' :: rest => some ('\x0c', rest)
  | 'r' :: rest => some ('\r', rest)
  | '"' :: rest => some ('"', rest)
  | '\\' :: rest => some ('\\', rest)
  | 'u' :: rest => charNumber? 4 rest
  | 'U' :: rest => charNumber? 8 rest
  | _ => none

/-- Reads a string on one line up to its closing quote; each character takes one unit of fuel. -/
def line? (quote : Char) : Nat → List Char → Option (List Char × List Char)
  | 0, _ => none
  | fuel + 1, cs =>
    match cs with
    | [] => none
    | c :: rest =>
      if c = quote then some ([], rest)
      else if c = '\\' && quote = '"' then do
        let (c, rest) ← escape? rest
        let (s, rest) ← line? quote fuel rest
        some (c :: s, rest)
      else if isControl c then none
      else (line? quote fuel rest).map fun (s, rest) => (c :: s, rest)

/-- Passes over blanks and ends of lines. -/
def wideBlanks (cs : List Char) : List Char :=
  cs.dropWhile fun c => c == ' ' || c == '\t' || c == '\n' || c == '\r'

/-- Reads a string on several lines up to its three closing quotes, before which one or two more may
stand. Each character takes one unit of fuel. -/
def lines? (quote : Char) : Nat → List Char → Option (List Char × List Char)
  | 0, _ => none
  | fuel + 1, cs =>
    match cs with
    | [] => none
    | c :: rest =>
      if c = quote then
        let run := (cs.takeWhile (· = quote)).length
        if run < 3 then (lines? quote fuel rest).map fun (s, rest) => (c :: s, rest)
        else if run > 5 then none
        else some (List.replicate (run - 3) quote, cs.drop run)
      else if c = '\\' && quote = '"' then
        match newline? (blanks rest) with
        | some rest => lines? quote fuel (wideBlanks rest)
        | none => do
          let (c, rest) ← escape? rest
          let (s, rest) ← lines? quote fuel rest
          some (c :: s, rest)
      else
        match newline? cs with
        | some rest => (lines? quote fuel rest).map fun (s, rest) => ('\n' :: s, rest)
        | none =>
          if isControl c then none
          else (lines? quote fuel rest).map fun (s, rest) => (c :: s, rest)

/-- Reads a string that begins with the given quote: on several lines if there are three of them. -/
def string? (quote : Char) (cs : List Char) : Option (String × List Char) :=
  let fuel := cs.length + 1
  let result :=
    if [quote, quote, quote].isPrefixOf cs then
      let rest := cs.drop 3
      lines? quote fuel ((newline? rest).getD rest)
    else line? quote fuel (cs.drop 1)
  result.map fun (s, rest) => (String.ofList s, rest)

/-- Reads one part of a key. -/
def keyPart? : List Char → Option (String × List Char)
  | cs@('"' :: _) => (line? '"' (cs.length + 1) (cs.drop 1)).map fun (s, r) => (String.ofList s, r)
  | cs@('\'' :: _) => (line? '\'' (cs.length + 1) (cs.drop 1)).map fun (s, r) => (String.ofList s, r)
  | cs =>
    match cs.takeWhile isKeyChar with
    | [] => none
    | k => some (String.ofList k, cs.dropWhile isKeyChar)

/-- Reads a key, with dots between its parts, and the blanks after it. -/
def key? : Nat → List Char → Option (List String × List Char)
  | 0, _ => none
  | fuel + 1, cs => do
    let (k, rest) ← keyPart? (blanks cs)
    match blanks rest with
    | '.' :: rest =>
      let (ks, rest) ← key? fuel rest
      some (k :: ks, rest)
    | rest => some ([k], rest)

/-! ## Numbers and times -/

/-- The digits of a number, without the underscores between them; `none` where an underscore does not
stand between two digits. -/
def digits? (isDigit : Char → Bool) (cs : List Char) : Option (List Char) :=
  let groups := cs.splitOn '_'
  if groups.all fun g => !g.isEmpty && g.all isDigit then some groups.flatten else none

/-- A sign, and what follows it. -/
def sign : List Char → Bool × List Char
  | '-' :: cs => (true, cs)
  | '+' :: cs => (false, cs)
  | cs => (false, cs)

/-- Digits that do not begin with a zero unless it is the only one. -/
def whole? (cs : List Char) : Option (List Char) := do
  let ds ← digits? Char.isDigit cs
  if ds.head? == some '0' && ds.length > 1 then none else some ds

/-- The number of digits in the given base, with underscores between them. -/
def based? (base : Nat) (cs : List Char) : Option Int := do
  let n ← Text.number? base 0 (← digits? Text.isHexDigit cs)
  some n

/-- A decimal number with an optional sign. -/
def decimal? (cs : List Char) : Option Int := do
  let (negative, ds) := sign cs
  let n ← Text.number? 10 0 (← whole? ds)
  some (if negative then -(n : Int) else n)

/-- An integer, if it fits in 128 bits. -/
def integer? (cs : List Char) : Option Int := do
  let n ←
    match cs with
    | '0' :: 'x' :: ds => based? 16 ds
    | '0' :: 'o' :: ds => based? 8 ds
    | '0' :: 'b' :: ds => based? 2 ds
    | _ => decimal? cs
  if -Int.pow 2 127 ≤ n && n < Int.pow 2 128 then some n else none

/-- Whether a decimal fraction is too large for a double: from `2 ^ 1024 - 2 ^ 970` on it is nearer
to infinity than to the largest one. -/
def overflows (digits : Nat) (exponent : Int) : Bool :=
  let magnitude : Int := (Nat.toDigits 10 digits).length + exponent
  if digits = 0 || magnitude < 300 then false
  else if magnitude > 400 then true
  else
    let limit := Nat.pow 2 1024 - Nat.pow 2 970
    if exponent ≥ 0 then digits * Nat.pow 10 exponent.toNat ≥ limit
    else digits ≥ limit * Nat.pow 10 (-exponent).toNat

/-- Whether the characters are a fraction that a double can hold. -/
def isFraction (cs : List Char) : Bool :=
  let cs := (sign cs).2
  if cs = ['i', 'n', 'f'] || cs = ['n', 'a', 'n'] then true
  else
    let mark (c : Char) : Bool := c == 'e' || c == 'E'
    let mantissa := cs.takeWhile fun c => !mark c
    let result : Option Bool := do
      let ws ← whole? (mantissa.takeWhile (· ≠ '.'))
      let ps ←
        match mantissa.dropWhile (· ≠ '.') with
        | '.' :: rest => digits? Char.isDigit rest
        | _ => some []
      let exponent : Int ←
        match cs.dropWhile fun c => !mark c with
        | _ :: rest => do
          let (negative, ds) := sign rest
          let n ← Text.number? 10 0 (← digits? Char.isDigit ds)
          pure (if negative then -(n : Int) else n)
        | [] => if ps.isEmpty then none else some 0
      some (!overflows (← Text.number? 10 0 (ws ++ ps)) (exponent - ps.length))
    result.getD false

/-- The number of exactly so many digits. -/
def fixed? (n : Nat) (cs : List Char) : Option (Nat × List Char) := do
  if cs.length < n then none
  else some (← Text.number? 10 0 (cs.take n), cs.drop n)

/-- The days of a month. -/
def daysIn (year month : Nat) : Nat :=
  if month = 2 then
    if year % 4 = 0 && (year % 100 ≠ 0 || year % 400 = 0) then 29 else 28
  else if month = 4 || month = 6 || month = 9 || month = 11 then 30
  else 31

/-- Passes over a date. -/
def date? (cs : List Char) : Option (List Char) := do
  match ← fixed? 4 cs with
  | (year, '-' :: cs) =>
    match ← fixed? 2 cs with
    | (month, '-' :: cs) =>
      let (day, cs) ← fixed? 2 cs
      if 1 ≤ month && month ≤ 12 && 1 ≤ day && day ≤ daysIn year month then some cs else none
    | _ => none
  | _ => none

/-- Passes over a time of day. -/
def time? (cs : List Char) : Option (List Char) := do
  match ← fixed? 2 cs with
  | (hour, ':' :: cs) =>
    match ← fixed? 2 cs with
    | (minute, ':' :: cs) =>
      let (second, cs) ← fixed? 2 cs
      if hour > 23 || minute > 59 || second > 60 then none
      else
        match cs with
        | '.' :: rest =>
          if rest.head?.any Char.isDigit then some (rest.dropWhile Char.isDigit) else none
        | cs => some cs
    | _ => none
  | _ => none

/-- Passes over the distance of a time from universal time, if there is one. -/
def offset? : List Char → Option (List Char)
  | 'Z' :: rest | 'z' :: rest => some rest
  | '+' :: rest | '-' :: rest => do
    match ← fixed? 2 rest with
    | (hour, ':' :: rest) =>
      let (minute, rest) ← fixed? 2 rest
      if hour > 23 || minute > 59 then none else some rest
    | _ => none
  | cs => some cs

/-- Whether the characters are a date, a time, or both. -/
def isTime (cs : List Char) : Bool :=
  let result : Option (List Char) :=
    match date? cs with
    | some [] => some []
    | some (c :: rest) =>
      if c = 'T' || c = 't' || c = ' ' then do offset? (← time? rest) else none
    | none => time? cs
  result == some []

/-! ## Values -/

/-- Whether the character ends a value without quotes. -/
def endsScalar (c : Char) : Bool := [' ', '\t', '\n', '\r', ',', ']', '}', '#'].contains c

/-- Reads a value without quotes. A date may be followed by a blank and a time. -/
def scalar? (cs : List Char) : Option (Toml × List Char) :=
  let first := cs.takeWhile fun c => !endsScalar c
  let rest := cs.dropWhile fun c => !endsScalar c
  let (token, rest) :=
    match rest with
    | ' ' :: d :: _ =>
      if date? first == some [] && d.isDigit then
        (first ++ ' ' :: (rest.drop 1).takeWhile fun c => !endsScalar c,
          (rest.drop 1).dropWhile fun c => !endsScalar c)
      else (first, rest)
    | _ => (first, rest)
  match integer? token with
  | some n => some (.integer n, rest)
  | none =>
    if token = ['t', 'r', 'u', 'e'] || token = ['f', 'a', 'l', 's', 'e'] || isFraction token ||
        isTime token then some (.other, rest)
    else none

/-- How many brackets and braces may be open around a value. -/
def maxDepth : Nat := 80

mutual

/-- Reads a value that begins at once, nested at most `depth` levels. Each level and each item takes
one unit of fuel. -/
def value? : Nat → Nat → List Char → Option (Toml × List Char)
  | 0, _, _ => none
  | fuel + 1, depth, cs =>
    match cs with
    | '"' :: _ => (string? '"' cs).map fun (s, rest) => (.text s, rest)
    | '\'' :: _ => (string? '\'' cs).map fun (s, rest) => (.text s, rest)
    | '[' :: rest =>
      if depth = 0 then none
      else
        (items? fuel (depth - 1) (emptyLines rest.length rest)).map fun (vs, rest) =>
          (.array vs, rest)
    | '{' :: rest =>
      if depth = 0 then none
      else
        match blanks rest with
        | '}' :: rest => some (.table .inline [], rest)
        | rest =>
          (assignments? fuel (depth - 1) [] rest).map fun (es, rest) => (.table .inline es, rest)
    | _ => scalar? cs

/-- Reads the items of a list up to its closing bracket; a comma may stand after the last one. -/
def items? : Nat → Nat → List Char → Option (List Toml × List Char)
  | 0, _, _ => none
  | fuel + 1, depth, cs =>
    match cs with
    | ']' :: rest => some ([], rest)
    | _ => do
      let (v, rest) ← value? fuel depth cs
      match emptyLines rest.length rest with
      | ',' :: rest =>
        let (vs, rest) ← items? fuel depth (emptyLines rest.length rest)
        some (v :: vs, rest)
      | ']' :: rest => some ([v], rest)
      | _ => none

/-- Reads the assignments inside braces up to the closing one; no comma may stand after the last. -/
def assignments? : Nat → Nat → Entries → List Char → Option (Entries × List Char)
  | 0, _, _, _ => none
  | fuel + 1, depth, es, cs => do
    match ← key? cs.length cs with
    | (keys, '=' :: rest) =>
      let (v, rest) ← value? fuel depth (blanks rest)
      let es ← assign keys v .inline es
      match blanks rest with
      | ',' :: rest => assignments? fuel depth es (blanks rest)
      | '}' :: rest => some (es, rest)
      | _ => none
    | _ => none

end

/-! ## Texts -/

/-- Reads a header after its opening bracket, up to the end of its line. -/
def header? (closing : List Char) (cs : List Char) : Option (List String × List Char) := do
  let (keys, rest) ← key? cs.length cs
  if closing.isPrefixOf rest then some (keys, ← lineEnd? (rest.drop closing.length)) else none

/-- Reads lines to the end of the text. `path` leads to the table that was opened last. -/
def statements? : Nat → List String → Entries → List Char → Option Entries
  | 0, _, _, _ => none
  | fuel + 1, path, root, cs =>
    match emptyLines (cs.length + 1) cs with
    | [] => some root
    | '[' :: '[' :: rest => do
      let (keys, rest) ← header? [']', ']'] rest
      statements? fuel keys (← openElement keys root) rest
    | '[' :: rest => do
      let (keys, rest) ← header? [']'] rest
      statements? fuel keys (← openTable keys root) rest
    | cs => do
      match ← key? cs.length cs with
      | (keys, '=' :: rest) =>
        let (v, rest) ← value? (2 * (rest.length + 1)) maxDepth (blanks rest)
        let root ← modifyAt false (assign keys v) path .header root
        statements? fuel path root (← lineEnd? rest)
      | _ => none

/-- The table of a whole text; a byte order mark at its beginning is passed over. -/
def parse? (s : String) : Option Toml :=
  let cs :=
    match s.toList with
    | '\ufeff' :: cs => cs
    | cs => cs
  (statements? (cs.length + 1) [] [] cs).map (.table .header)

/-! ## Documents -/

/-- A case: its name alone, or a table with the name and what the case carries. -/
def case? : Toml → Option (String × Option Toml)
  | .text name => some (name, none)
  | .table _ [(name, .table _ [])] => some (name, none)
  | .table _ [(name, .array [])] => some (name, none)
  | .table _ [(name, v)] => some (name, some v)
  | _ => none

/-- How documents are read from TOML. -/
def reader : Reader Toml where
  text? := fun | .text s => some s | _ => none
  natural? := fun | .integer n => if 0 ≤ n then some n.toNat else none | _ => none
  option? := fun v => some (some v)
  items? := fun
    | .array vs => some vs
    | .tables elements => some (elements.map (.table .header))
    | _ => none
  mapping? := fun | .table _ es => some es | _ => none
  record? := fun _ fields v =>
    match v with
    | .table _ es => some (fields.map fun f => List.lookup f es)
    | _ => none
  wrapped? := fun _ v => some v
  case? := case?

/-- The document of a text. -/
def read? {α : Type} [Documented α] (s : String) : Option α := do
  Documented.decode? reader (← parse? s)

end PetriNets.Toml
