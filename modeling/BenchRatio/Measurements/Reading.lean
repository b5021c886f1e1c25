import BenchRatio.Measurements
import BenchRatio.Notice
import BenchRatio.Text.Blank

/-!
# Reading measurements

A results file is read record by record. The first record is the header and only has to be text.
Every other one gives a benchmark's name and its measurement; further fields are ignored. Of two
rows with one name the later one counts. Reading stops at the first record that is wrong.

* `Stream`: bytes that end, or that end in a failure.
* `decodeFields`: a record's fields as text, or the first field that is none.
* `row`: the name and the measurement of a row.
* `Measurements.read`: the measurements of a stream.
-/

namespace BenchRatio

/-- What a reader gets: bytes, and then either the end or a failure. -/
structure Stream where
  bytes : Bytes
  failure : Option Fault := none

/-- The failure that a reader meets, if there is one. A byte order mark is taken off before anything
else, and a stream that has delivered nothing else counts as one that has ended. -/
def Stream.failureSeen (s : Stream) : Option Fault :=
  if s.bytes = Record.byteOrderMark then none else s.failure

namespace Record

/-- The fields as text, or the number of the first field that is none with the length of its
well-formed start; fields count from `i`. -/
def decodeFields (i : Nat) : List Bytes → Except (Nat × Nat) (List String)
  | [] => .ok []
  | field :: more =>
    match Utf8.decode? field with
    | none => .error (i, Utf8.validLength field)
    | some text => (decodeFields (i + 1) more).map (text :: ·)

/-- The name and the measurement in a row. Blanks around the number do not count. -/
def row : List String → Except RowDefect (String × Float)
  | [] => .error .missingName
  | [name] => .error (.missingValue name)
  | name :: raw :: _ =>
    match Numeral.read (Blank.trim raw) with
    | .error defect => .error (.notNumber name raw defect)
    | .ok value => .ok (name, value)

/-- The text of a record. -/
def text (r : Raw) : Except RowDefect (List String) :=
  match decodeFields 0 r.fields with
  | .error (field, index) => .error (.notText r.number r.start field index)
  | .ok fields => .ok fields

end Record

namespace Measurements

/-- Adds one measurement; a notice says if it replaces an earlier one. -/
def addRow (origin : String) (number : Nat) (m : Measurements) (name : String) (value : Float) :
    Logged Measurements :=
  let (old?, m') := m.getThenInsert? name value
  let notices :=
    match old? with
    | some old => [.replaced origin number name old value]
    | none => []
  ⟨notices, m'⟩

/-- The problem of a record that is no text. Its row follows from the scanner's number. -/
def notText (origin : String) (r : Record.Raw) (defect : RowDefect) : Problem :=
  .badRow origin (r.number + 1) defect

/-- Reads data rows, the first of which is the given row. A row that holds no measurement is
reported by the rows read so far, one that is no text by the scanner's number. -/
def readRows (origin : String) (m : Measurements) (row : Nat) :
    List Record.Raw → Logged (Except Problem Measurements)
  | [] => ⟨[], .ok m⟩
  | r :: more =>
    match Record.text r with
    | .error defect => ⟨[], .error (notText origin r defect)⟩
    | .ok fields =>
      match Record.row fields with
      | .error defect => ⟨[], .error (.badRow origin row defect)⟩
      | .ok (name, value) =>
        let added := addRow origin row m name value
        let tail := readRows origin added.result (row + 1) more
        ⟨added.notices ++ tail.notices, tail.result⟩

/-- Reads a header, which is row one, and data rows. -/
def readRecords (origin : String) : List Record.Raw → Logged (Except Problem Measurements)
  | [] => ⟨[], .ok empty⟩
  | header :: rows =>
    match Record.text header with
    | .error defect => ⟨[], .error (notText origin header defect)⟩
    | .ok _ => readRows origin empty 2 rows

/-- Reads the measurements of a stream. A stream that fails has no last record: what stands after
the last terminator is neither accepted nor judged, and the failure is reported if no record before
it is wrong. -/
def read (d : Dialect) (origin : String) (s : Stream) : Logged (Except Problem Measurements) :=
  let records := Record.records d s.bytes
  match s.failureSeen with
  | none => readRecords origin records
  | some fault =>
    let seen := readRecords origin (records.filter (·.closed))
    ⟨seen.notices, seen.result.bind fun _ => .error (.streamFailed fault)⟩

end Measurements

end BenchRatio
