import PetriNets.Text.Digits
import PetriNets.Token

/-!
# Options

What a command is asked to do, and how that is read off its words. Words are taken from left to
right. The value of an option may stand in the same word or in the next one; it is looked at when
the option is complete, which it is as soon as the next option or the net follows.
-/

namespace PetriNets.CommandLine

/-- The analyses that can be asked for. -/
inductive Analysis where
  | bounded
  | coverability
  | reachability
  | cycles
  | deadlocks
deriving DecidableEq

/-- What a command is asked to do. -/
structure Options where
  analysis : Analysis
  /-- The path of the settings. -/
  config : String
  /-- The place to which the question of boundedness is restricted. -/
  place : Option String
  /-- Where the resulting transition system is written. -/
  output : Option String
  timeoutMs : Option Nat
  /-- Whether the resulting transition system is drawn. -/
  dot : Bool
  /-- The path of the net. -/
  net : String
deriving DecidableEq

/-- Why the words of a command do not tell what to do, or ask only for a text. -/
inductive OptionsError where
  | missingNet
  /-- No analysis of this name, or an option without its value. -/
  | invalidValue
  /-- A number of milliseconds that is no number. -/
  | invalidNumber
  | unknownArgument (word : String)
  /-- An option that is given twice. -/
  | repeated
  /-- A value for an option that takes none. -/
  | needlessValue
  | help
  | version
deriving DecidableEq

/-- The wording of the error, or the text asked for. -/
def OptionsError.message : OptionsError → String
  | missingNet => "error: no net was given"
  | invalidValue => "error: an option needs another value"
  | invalidNumber => "error: the time limit is not a number"
  | unknownArgument word => s!"error: unexpected argument '{word}' found"
  | repeated => "error: an option is given twice"
  | needlessValue => "error: an option takes no value"
  | help => "Coverability, boundedness and cycle analysis of Petri nets\n\n" ++
      "Usage: [OPTIONS] <NET>\n\n" ++
      "Arguments:\n" ++
      "  <NET>  Net document (.json or .ron)\n\n" ++
      "Options:\n" ++
      "  -a, --analysis <analysis>  The analysis to run [default: bounded] " ++
      "[possible values: bounded, cover, reach, cycles, deadlocks]\n" ++
      "  -c, --config <FILE>        TOML analysis configuration, ignored if missing " ++
      "[default: pn.toml]\n" ++
      "  -p, --place <PLACE>        Restrict the boundedness check to one place\n" ++
      "  -o, --output <FILE>        " ++
      "Write the resulting transition system as a JSON document\n" ++
      "      --timeout-ms <MS>      Cancel the analysis after this many milliseconds\n" ++
      "      --dot                  Print the resulting transition system in DOT format\n" ++
      "  -h, --help                 Print help\n" ++
      "  -V, --version              Print version"
  | version => "pn v0.1.0"

/-! ## Names -/

/-- The options that take a value. -/
inductive Setting where
  | analysis
  | config
  | place
  | output
  | timeout
deriving DecidableEq

/-- The options that take none. -/
inductive Switch where
  | dot
  | help
  | version
deriving DecidableEq

/-- An option of either kind. -/
abbrev AnyOption := Setting ⊕ Switch

/-- The option of a name after two dashes. -/
def longOption? : String → Option AnyOption
  | "analysis" => some (.inl .analysis)
  | "config" => some (.inl .config)
  | "place" => some (.inl .place)
  | "output" => some (.inl .output)
  | "timeout-ms" => some (.inl .timeout)
  | "dot" => some (.inr .dot)
  | "help" => some (.inr .help)
  | "version" => some (.inr .version)
  | _ => none

/-- The option of a letter after one dash. -/
def shortOption? : Char → Option AnyOption
  | 'a' => some (.inl .analysis)
  | 'c' => some (.inl .config)
  | 'p' => some (.inl .place)
  | 'o' => some (.inl .output)
  | 'h' => some (.inr .help)
  | 'V' => some (.inr .version)
  | _ => none

/-- The analysis of a name. -/
def Analysis.ofName? : String → Option Analysis
  | "bounded" => some .bounded
  | "cover" => some .coverability
  | "reach" => some .reachability
  | "cycles" => some .cycles
  | "deadlocks" => some .deadlocks
  | _ => none

/-- A decimal number that fits in a 64-bit word; a plus sign may stand before it. -/
def milliseconds? (s : String) : Option Nat :=
  let digits :=
    match s.toList with
    | '+' :: digits => digits
    | digits => digits
  if digits.isEmpty then none else (Text.number? 10 0 digits).filter (· ≤ maxWord)

/-! ## Reading -/

/-- What the words so far have told. -/
structure PartialOptions where
  analysis : Option Analysis
  config : Option String
  place : Option String
  output : Option String
  timeoutMs : Option Nat
  dot : Bool
  net : Option String
  /-- The option that is not complete yet, with its value if there was one. -/
  pending : Option (Setting × Option String)
  /-- Whether two dashes have told that no more options follow. -/
  onlyNet : Bool
deriving DecidableEq

namespace PartialOptions

/-- Before the first word. -/
def start : PartialOptions := ⟨none, none, none, none, none, false, none, none, false⟩

/-- Whether an option has had a value before. -/
def isSet (o : PartialOptions) : Setting → Bool
  | .analysis => o.analysis.isSome
  | .config => o.config.isSome
  | .place => o.place.isSome
  | .output => o.output.isSome
  | .timeout => o.timeoutMs.isSome

/-- Gives an option its value. -/
def set (o : PartialOptions) (s : Setting) (value : String) : Except OptionsError PartialOptions :=
  if o.isSet s then .error .repeated
  else
    match s with
    | .analysis =>
      match Analysis.ofName? value with
      | some a => .ok { o with analysis := some a }
      | none => .error .invalidValue
    | .config => .ok { o with config := some value }
    | .place => .ok { o with place := some value }
    | .output => .ok { o with output := some value }
    | .timeout =>
      match milliseconds? value with
      | some n => .ok { o with timeoutMs := some n }
      | none => .error .invalidNumber

/-- Completes the pending option. -/
def settle (o : PartialOptions) : Except OptionsError PartialOptions :=
  match o.pending with
  | none => .ok o
  | some (_, none) => .error .invalidValue
  | some (s, some value) => { o with pending := none }.set s value

/-- An option that takes no value. -/
def switch (o : PartialOptions) (s : Switch) : Except OptionsError PartialOptions := do
  let o ← o.settle
  match s with
  | .dot => if o.dot then .error .repeated else .ok { o with dot := true }
  | .help => .error .help
  | .version => .error .version

/-- An option that takes a value, with the one in the same word. -/
def setting (o : PartialOptions) (s : Setting) (attached : Option String) :
    Except OptionsError PartialOptions := do
  let o ← o.settle
  match attached with
  | some value => o.set s value
  | none => .ok { o with pending := some (s, none) }

/-- A word after two dashes: a name, perhaps with a value after an equals sign. -/
def long (o : PartialOptions) (word : List Char) : Except OptionsError PartialOptions :=
  let name := String.ofList (word.takeWhile (· ≠ '='))
  let attached :=
    match word.dropWhile (· ≠ '=') with
    | _ :: value => some (String.ofList value)
    | [] => none
  match longOption? name, attached with
  | some (.inl s), _ => o.setting s attached
  | some (.inr _), some _ => .error .needlessValue
  | some (.inr s), none => o.switch s
  | none, _ => .error (.unknownArgument s!"--{name}")

/-- A word after one dash: a letter, perhaps with a value, before which an equals sign may stand. -/
def short (o : PartialOptions) (letter : Char) (rest : List Char) :
    Except OptionsError PartialOptions :=
  let attached :=
    match rest with
    | [] => none
    | '=' :: value => some (String.ofList value)
    | value => some (String.ofList value)
  match shortOption? letter with
  | some (.inl s) => o.setting s attached
  | some (.inr s) => o.switch s
  | none => .error (.unknownArgument s!"-{letter}")

/-- A word that is no option. -/
def positional (o : PartialOptions) (word : String) : Except OptionsError PartialOptions :=
  if o.net.isSome then .error (.unknownArgument word)
  else return { ← o.settle with net := some word }

/-- One more word. -/
def next (o : PartialOptions) (word : String) : Except OptionsError PartialOptions :=
  if o.onlyNet then o.positional word
  else
    match word.toList, o.pending with
    | ['-', '-'], _ => .ok { o with onlyNet := true }
    | '-' :: '-' :: rest, _ => o.long rest
    | '-' :: letter :: rest, _ => o.short letter rest
    | _, some (s, none) => .ok { o with pending := some (s, some word) }
    | _, _ => o.positional word

/-- After the last word: what was not given has its default value, except the net. -/
def finish (o : PartialOptions) : Except OptionsError Options := do
  let o ← o.settle
  match o.net with
  | none => .error .missingNet
  | some net => return {
      analysis := o.analysis.getD .bounded
      config := o.config.getD "pn.toml"
      place := o.place
      output := o.output
      timeoutMs := o.timeoutMs
      dot := o.dot
      net }

end PartialOptions

/-- What the words of a command ask for. -/
def Options.ofWords (words : List String) : Except OptionsError Options := do
  (← words.foldlM PartialOptions.next .start).finish

end PetriNets.CommandLine
