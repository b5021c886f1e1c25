import BenchRatio.Path

/-!
# Command-line arguments

Flags with a value take it after an equals sign or from the next argument; two flags take none. A
value in an argument of its own is looked at when the next flag comes or the arguments end, so of
two mistakes an unknown flag can win over a bad value before it.

* `Arguments.parse`: the settings that arguments make, or why they are refused.
-/

namespace BenchRatio

/-- The form of the report. -/
inductive Format
  | text
  | json
  deriving DecidableEq, Repr

/-- The settings that arguments make. What is left out is `none` or empty. -/
structure Arguments where
  config : Option Path := none
  resultsDir : Option Path := none
  outputDir : Option Path := none
  baseline : Option String := none
  techniques : List String := []
  categories : List String := []
  delimiter : Option Char := none
  quote : Option Char := none
  format : Option Format := none
  verbose : Bool := false
  deriving DecidableEq, Repr

/-- Why arguments are refused. -/
inductive Refusal
  /-- There is no such flag, or the argument belongs to no flag. -/
  | unknownArgument
  /-- A value is missing or empty or not one of those allowed. -/
  | invalidValue
  /-- A flag that is given once was given twice. -/
  | conflict
  /-- A value is not a single character. -/
  | badValue
  /-- A flag without a value was given one. -/
  | tooManyValues
  /-- Help was asked for. -/
  | help
  deriving DecidableEq, Repr

/-- The flags with a value. -/
inductive Flag
  | config
  | resultsDir
  | outputDir
  | baseline
  | technique
  | category
  | delimiter
  | quote
  | format
  deriving DecidableEq, Repr

/-- What a name after two dashes stands for. -/
inductive Name
  | flag (f : Flag)
  | verbose
  | help
  deriving DecidableEq, Repr

namespace Arguments

/-- The meaning of a name after two dashes. -/
def name? : String → Option Name
  | "config" => some (.flag .config)
  | "results-dir" => some (.flag .resultsDir)
  | "output-dir" => some (.flag .outputDir)
  | "baseline" => some (.flag .baseline)
  | "technique" => some (.flag .technique)
  | "category" => some (.flag .category)
  | "delimiter" => some (.flag .delimiter)
  | "quote" => some (.flag .quote)
  | "format" => some (.flag .format)
  | "verbose" => some .verbose
  | "help" => some .help
  | _ => none

/-! ## Values -/

/-- A path must not be empty. -/
def pathValue (s : String) : Except Refusal Path :=
  if s = "" then .error .invalidValue else .ok ⟨s⟩

/-- A character stands alone. -/
def charValue (s : String) : Except Refusal Char :=
  match s.toList with
  | [c] => .ok c
  | _ => .error .badValue

/-- The forms of the report by name. -/
def formatValue : String → Except Refusal Format
  | "text" => .ok .text
  | "json" => .ok .json
  | _ => .error .invalidValue

/-- The value of a setting that is made once. -/
def once {α : Type} (old : Option α) (value : Except Refusal α) : Except Refusal (Option α) :=
  match old with
  | some _ => .error .conflict
  | none => value.map some

/-- Makes a setting. Techniques and categories add up; the others are made once. -/
def set (a : Arguments) (f : Flag) (s : String) : Except Refusal Arguments :=
  match f with
  | .config => (once a.config (pathValue s)).map fun v => { a with config := v }
  | .resultsDir => (once a.resultsDir (pathValue s)).map fun v => { a with resultsDir := v }
  | .outputDir => (once a.outputDir (pathValue s)).map fun v => { a with outputDir := v }
  | .baseline => (once a.baseline (.ok s)).map fun v => { a with baseline := v }
  | .technique => .ok { a with techniques := a.techniques ++ [s] }
  | .category => .ok { a with categories := a.categories ++ [s] }
  | .delimiter => (once a.delimiter (charValue s)).map fun v => { a with delimiter := v }
  | .quote => (once a.quote (charValue s)).map fun v => { a with quote := v }
  | .format => (once a.format (formatValue s)).map fun v => { a with format := v }

/-! ## Reading arguments -/

/-- A flag whose setting is still to be made, with its value if that has come. -/
abbrev Waiting := Option (Flag × Option String)

/-- Makes the setting that is still to be made. -/
def resolve (a : Arguments) : Waiting → Except Refusal Arguments
  | none => .ok a
  | some (_, none) => .error .invalidValue
  | some (f, some s) => a.set f s

/-- Sets the switch for more messages. -/
def setVerbose (a : Arguments) : Except Refusal Arguments :=
  if a.verbose then .error .conflict else .ok { a with verbose := true }

/-- The letters of an argument that starts with one dash. The setting that waits is made when the
first known letter comes. -/
def letters (a : Arguments) (w : Waiting) : List Char → Except Refusal Arguments
  | [] => a.resolve w
  | 'v' :: more => do
    let a ← a.resolve w
    let a ← a.setVerbose
    a.letters none more
  | 'h' :: _ => do
    let _ ← a.resolve w
    .error .help
  | _ => .error .unknownArgument

/-- A name after two dashes, with the value after an equals sign if there is one. Gives the settings
made, and the flag that now waits. -/
def long (a : Arguments) (w : Waiting) (name : String) (value : Option String) :
    Except Refusal (Arguments × Waiting) :=
  match name? name, value with
  | none, _ => .error .unknownArgument
  | some .verbose, none => do
    let a ← a.resolve w
    return (← a.setVerbose, none)
  | some .help, none => do
    let _ ← a.resolve w
    .error .help
  | some .verbose, some _ | some .help, some _ => .error .tooManyValues
  | some (.flag f), none => do return (← a.resolve w, some (f, none))
  | some (.flag f), some s => do
    let a ← a.resolve w
    return (← a.set f s, none)

/-- A text up to its first equals sign, and what follows the sign if there is one. -/
def splitEquals (cs : List Char) : String × Option String :=
  match cs.dropWhile (· ≠ '=') with
  | [] => (String.ofList cs, none)
  | _ :: value => (String.ofList (cs.takeWhile (· ≠ '=')), some (String.ofList value))

/-- An argument that is no flag: the value that the waiting flag lacks, or nothing known. -/
def plain (w : Waiting) (s : String) : Except Refusal Waiting :=
  match w with
  | some (f, none) => .ok (some (f, some s))
  | _ => .error .unknownArgument

/-- Reads arguments after those that made the given settings. After two bare dashes there are no
flags any more, and no other argument is known. -/
def parseFrom (a : Arguments) (w : Waiting) : List String → Except Refusal Arguments
  | [] => a.resolve w
  | s :: more =>
    match s.toList with
    | ['-', '-'] => if more = [] then a.resolve w else .error .unknownArgument
    | '-' :: '-' :: body => do
      let (name, value) := splitEquals body
      let (a, w) ← a.long w name value
      a.parseFrom w more
    | '-' :: c :: body => do
      let a ← a.letters w (c :: body)
      a.parseFrom none more
    | _ => do
      let w ← plain w s
      a.parseFrom w more

/-- The settings that arguments make. -/
def parse (args : List String) : Except Refusal Arguments := parseFrom {} none args

end Arguments

end BenchRatio
