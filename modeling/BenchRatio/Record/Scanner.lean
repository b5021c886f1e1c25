import BenchRatio.Text.Utf8

/-!
# Scanning records

A results file is a sequence of records, a record a sequence of fields. A delimiter ends a field
and a carriage return or a line feed ends a record; a field that starts with the quote byte is
quoted, and there neither has a meaning. Any byte may be the delimiter or the quote, so the order of
the tests in `Record.action` is part of the format.

* `action`: what one byte does, by the place in the record where it stands.
* `scan`: one record and what follows it.
* `records`: all records of a file, each with the place where the scanner stood before it.
* `length_scan_lt`: a scanned record takes at least one byte.
* `fields_ne_nil_of_mem_records`: a record has at least one field.
-/

namespace BenchRatio

/-- The two bytes that an input format may choose. -/
structure Dialect where
  /-- Ends a field. -/
  delimiter : UInt8
  /-- Starts and ends a quoted part. -/
  quote : UInt8
  deriving DecidableEq, Repr

/-- The format of results files: commas between fields and bars around quoted ones. -/
def Dialect.results : Dialect := ⟨0x2C, 0x7C⟩

/-- The format of the tables that are written: commas and double quotes. -/
def Dialect.table : Dialect := ⟨0x2C, 0x22⟩

namespace Record

/-- Whether a byte ends a record: a carriage return or a line feed. -/
def isTerminator (b : UInt8) : Bool := b = 0x0D ∨ b = 0x0A

/-! ## One byte -/

/-- Where the scanner stands in a record. -/
inductive Phase
  /-- At the first byte of a field. -/
  | fieldStart
  /-- In a part without quotes. -/
  | bare
  /-- Between quotes. -/
  | quoted
  /-- After a quote that ends the quoted part, unless it is doubled. -/
  | afterQuote
  deriving DecidableEq, Repr

/-- What a byte does. -/
inductive Action
  /-- It belongs to the field. -/
  | keep (next : Phase)
  /-- It is a mark around a quoted part. -/
  | skip (next : Phase)
  | endField
  | endRecord
  deriving DecidableEq, Repr

/-- The action of a byte that is not a quote with a meaning. -/
def bareAction (delimiter b : UInt8) : Action :=
  if b = delimiter then .endField
  else if isTerminator b then .endRecord
  else .keep .bare

/-- What a byte does at a place. A doubled quote stands for one quote; after a closing quote the
field goes on as a bare one. -/
def action (d : Dialect) (p : Phase) (b : UInt8) : Action :=
  match p with
  | .fieldStart => if b = d.quote then .skip .quoted else bareAction d.delimiter b
  | .bare => bareAction d.delimiter b
  | .quoted => if b = d.quote then .skip .afterQuote else .keep .quoted
  | .afterQuote => if b = d.quote then .keep .quoted else bareAction d.delimiter b

/-! ## Places in a file -/

/-- A place in a file: the bytes before it and the line it is on, counted from one. -/
structure Mark where
  byte : Nat
  line : Nat
  deriving DecidableEq, Repr

/-- The start of a file. -/
def Mark.start : Mark := ⟨0, 1⟩

/-- The place after a byte. Line feeds alone count lines. -/
def Mark.after (m : Mark) (b : UInt8) : Mark :=
  ⟨m.byte + 1, if b = 0x0A then m.line + 1 else m.line⟩

/-! ## One record -/

/-- A record's fields and the scanner's place after them. -/
structure Scanned where
  fields : List Bytes
  /-- Whether a terminator ended the record; otherwise the bytes did. -/
  closed : Bool
  here : Mark
  rest : Bytes

/-- Scans one record. The finished fields and the bytes of the current one come last first. The end
of the bytes ends the last field, also between quotes. -/
def scan (d : Dialect) (p : Phase) (done : List Bytes) (field : Bytes) (here : Mark) :
    Bytes → Scanned
  | [] => ⟨(field.reverse :: done).reverse, false, here, []⟩
  | b :: bs =>
    match action d p b with
    | .keep q => scan d q done (b :: field) (here.after b) bs
    | .skip q => scan d q done field (here.after b) bs
    | .endField => scan d .fieldStart (field.reverse :: done) [] (here.after b) bs
    | .endRecord => ⟨(field.reverse :: done).reverse, true, here.after b, bs⟩

theorem length_scan_le (d : Dialect) (p : Phase) (done : List Bytes) (field : Bytes) (here : Mark)
    (bytes : Bytes) : (scan d p done field here bytes).rest.length ≤ bytes.length := by
  induction bytes generalizing p done field here with
  | nil => simp [scan]
  | cons b bs ih =>
    rw [scan]
    split
    · exact Nat.le_succ_of_le (ih ..)
    · exact Nat.le_succ_of_le (ih ..)
    · exact Nat.le_succ_of_le (ih ..)
    · simp

/-- A scanned record takes at least one byte. -/
theorem length_scan_lt (d : Dialect) (p : Phase) (done : List Bytes) (field : Bytes) (here : Mark)
    (b : UInt8) (bs : Bytes) :
    (scan d p done field here (b :: bs)).rest.length < (b :: bs).length := by
  rw [scan]
  split
  · exact Nat.lt_succ_of_le (length_scan_le ..)
  · exact Nat.lt_succ_of_le (length_scan_le ..)
  · exact Nat.lt_succ_of_le (length_scan_le ..)
  · simp

theorem fields_scan_ne_nil (d : Dialect) (p : Phase) (done : List Bytes) (field : Bytes)
    (here : Mark) (bytes : Bytes) : (scan d p done field here bytes).fields ≠ [] := by
  induction bytes generalizing p done field here with
  | nil => simp [scan]
  | cons b bs ih =>
    rw [scan]
    split
    · exact ih _ _ _ _
    · exact ih _ _ _ _
    · exact ih _ _ _ _
    · simp

/-! ## All records -/

/-- The place after a run of terminators, and the bytes from there on. -/
def skipTerminators (here : Mark) : Bytes → Mark × Bytes
  | [] => (here, [])
  | b :: bs => if isTerminator b then skipTerminators (here.after b) bs else (here, b :: bs)

theorem length_skipTerminators_le (here : Mark) (bytes : Bytes) :
    (skipTerminators here bytes).2.length ≤ bytes.length := by
  induction bytes generalizing here with
  | nil => simp [skipTerminators]
  | cons b bs ih =>
    rw [skipTerminators]
    split
    · exact Nat.le_succ_of_le (ih _)
    · exact Nat.le_refl _

/-- A record as it stands in a file. -/
structure Raw where
  /-- How many records the scanner has seen before it. -/
  number : Nat
  /-- The place just after the record before it, ahead of empty lines. -/
  start : Mark
  fields : List Bytes
  /-- Whether a terminator ended the record. -/
  closed : Bool
  deriving DecidableEq, Repr

/-- The records from a place on, the first of which has the given number. Empty lines before a
record are no records. The first mark is where the record before ended, which is reported, the
second one where the bytes start. -/
def recordsFrom (d : Dialect) (number : Nat) (start here : Mark) (bytes : Bytes) : List Raw :=
  match _hskip : skipTerminators here bytes with
  | (_, []) => []
  | (here', b :: bs) =>
    let s := scan d .fieldStart [] [] here' (b :: bs)
    ⟨number, start, s.fields, s.closed⟩ :: recordsFrom d (number + 1) s.here s.here s.rest
termination_by bytes.length
decreasing_by
  have h1 := length_skipTerminators_le here bytes
  have h2 := length_scan_lt d .fieldStart [] [] here' b bs
  rw [_hskip] at h1
  exact Nat.lt_of_lt_of_le h2 h1

/-- The byte order mark that may stand before everything. -/
def byteOrderMark : Bytes := [0xEF, 0xBB, 0xBF]

/-- The records of a file. A byte order mark before everything is dropped; it counts in the places
after the first record only. -/
def records (d : Dialect) : Bytes → List Raw
  | 0xEF :: 0xBB :: 0xBF :: bytes => recordsFrom d 0 .start ⟨3, 1⟩ bytes
  | bytes => recordsFrom d 0 .start .start bytes

theorem fields_ne_nil_of_mem_recordsFrom {d : Dialect} {number : Nat} {start here : Mark}
    {bytes : Bytes} {r : Raw} (h : r ∈ recordsFrom d number start here bytes) : r.fields ≠ [] := by
  fun_induction recordsFrom d number start here bytes with
  | case1 => simp at h
  | case2 number start here bytes here' b bs _ s ih =>
    rcases List.mem_cons.mp h with rfl | h
    · exact fields_scan_ne_nil _ _ _ _ _ _
    · exact ih h

/-- A record has at least one field. -/
theorem fields_ne_nil_of_mem_records {d : Dialect} {bytes : Bytes} {r : Raw}
    (h : r ∈ records d bytes) : r.fields ≠ [] := by
  unfold records at h
  split at h <;> exact fields_ne_nil_of_mem_recordsFrom h

end Record

end BenchRatio
