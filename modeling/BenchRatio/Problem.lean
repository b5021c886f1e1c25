import BenchRatio.Decimal.Numeral
import BenchRatio.Fault
import BenchRatio.Path
import BenchRatio.Record.Scanner

/-!
# What can go wrong with a category

* `RowDefect`: why a row of a results file holds no measurement.
* `Problem`: why a category has no report.
* `RowDefect.message`, `Problem.message`: the words for them.
-/

namespace BenchRatio

/-- Why a row holds no measurement. -/
inductive RowDefect
  /-- Some field is not text: the record's number from zero, the place where it starts, the field's
  number from zero and the length of its well-formed start. -/
  | notText (record : Nat) (start : Record.Mark) (field index : Nat)
  | missingName
  | missingValue (name : String)
  | notNumber (name raw : String) (defect : Numeral.Defect)
  deriving DecidableEq, Repr

/-- The defect in words. -/
def RowDefect.message : RowDefect → String
  | .notText record start field index =>
    s!"CSV parse error: record {record} (line {start.line}, field: {field}, byte: {start.byte}): " ++
      s!"invalid utf-8: invalid UTF-8 in field {field} near byte index {index}"
  | .missingName => "missing benchmark name"
  | .missingValue name => s!"missing value field for benchmark '{name}'"
  | .notNumber name raw defect =>
    s!"value '{raw}' for benchmark '{name}' is not a number: {defect.message}"

/-- Why a category has no report. -/
inductive Problem
  /-- A results file does not exist or cannot be read. -/
  | unreadable (path : Path) (cause : Fault)
  /-- A row of a results file holds no measurement. Rows count from one, the header included. -/
  | badRow (origin : String) (row : Nat) (defect : RowDefect)
  /-- A column has no defined ratio to average. -/
  | emptyColumn (label : String)
  /-- The table cannot be written to its file. -/
  | unwritable (path : Path) (cause : Fault)
  /-- A row has more or fewer ratios than there are columns. -/
  | widthMismatch (benchmark : String) (expected actual : Nat)
  /-- The output refused bytes while records were written. -/
  | recordRefused (cause : Fault)
  /-- A record has more or fewer fields than the one before it. -/
  | ragged (expected actual : Nat)
  /-- A stream failed: the input while it was read, or the output when the last bytes were sent. -/
  | streamFailed (cause : Fault)
  deriving DecidableEq, Repr

/-- The problem in words. -/
def Problem.message : Problem → String
  | .unreadable path cause => s!"results file {path.text} could not be read: {cause.message}"
  | .badRow origin row defect => s!"{origin}: row {row}: {defect.message}"
  | .emptyColumn label => s!"treatment '{label}' has no benchmarks with a defined ratio"
  | .unwritable path cause => s!"failed to write {path.text}: {cause.message}"
  | .widthMismatch benchmark expected actual =>
    s!"row '{benchmark}' has {actual} ratio columns but {expected} column names were given"
  | .recordRefused cause => cause.message
  | .ragged expected actual =>
    s!"CSV error: found record with {actual} fields, but the previous record has {expected} fields"
  | .streamFailed cause => cause.message

end BenchRatio
