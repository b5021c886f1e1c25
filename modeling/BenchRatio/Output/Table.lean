import BenchRatio.Output.Device
import BenchRatio.Record.Spelling
import BenchRatio.Summary

/-!
# Writing tables

A table is a header and one record for each row, all of one width. Rows are checked, added to the
totals and written one by one, so a row of the wrong width leaves the rows before it in the output;
the means are taken after everything has been sent.

* `Table.header`, `Table.record`: the records of a table.
* `Table.text`: the bytes of a table, up to the first row of the wrong width.
* `Sheet.send`: a record on its way to an outlet.
* `Table.write`: a table on its way to an outlet, with the summary of its columns.
-/

namespace BenchRatio

/-! ## Sheets -/

/-- Records on their way to an outlet. -/
structure Sheet where
  buffer : Buffer
  /-- The width of the first record, once there is one. -/
  width : Option Nat

namespace Sheet

/-- A sheet without records. -/
def new (o : Outlet) : Sheet := ⟨.new o, none⟩

/-- Writes a record, which must be as wide as the first one. -/
def send (s : Sheet) (fields : List Bytes) : Sheet × Option Problem :=
  let width := s.width.getD fields.length
  if fields.length = width then
    let (buffer, fault) := s.buffer.pushAll (Record.units .table fields)
    (⟨buffer, some width⟩, fault.map .recordRefused)
  else (s, some (.ragged width fields.length))

/-- Sends everything on to the device. -/
def flush (s : Sheet) : Sheet × Option Problem :=
  let (buffer, fault) := s.buffer.flush
  ({ s with buffer }, fault.map .streamFailed)

end Sheet

/-! ## Tables -/

namespace Table

/-- The header's fields. -/
def header (labels : List String) : List Bytes := ("benchmark" :: labels).map Utf8.encode

/-- A row's fields. -/
def record (row : RatioRow) : List Bytes :=
  (row.benchmark :: row.ratios.map Ratio.text).map Utf8.encode

/-- The bytes of a table: the header and the rows before the first one of the wrong width. -/
def text (labels : List String) (rows : List RatioRow) : Bytes :=
  let good := rows.takeWhile fun row => row.ratios.length = labels.length
  (header labels :: good.map record).flatMap (Record.encode .table)

/-- Writes rows, until the first one that is refused. -/
def sendRows (s : Sheet) (t : Totals) : List RatioRow → Sheet × Except Problem Totals
  | [] => (s, .ok t)
  | row :: more =>
    match t.observe row with
    | .error problem => (s, .error problem)
    | .ok t' =>
      match s.send (record row) with
      | (s', some problem) => (s', .error problem)
      | (s', none) => sendRows s' t' more

/-- Writes a header and rows, sends everything on and takes the means. -/
def sendAll (s : Sheet) (labels : List String) (rows : List RatioRow) :
    Sheet × Except Problem Summary :=
  match s.send (header labels) with
  | (s, some problem) => (s, .error problem)
  | (s, none) =>
    match sendRows s (.start labels) rows with
    | (s, .error problem) => (s, .error problem)
    | (s, .ok totals) =>
      match s.flush with
      | (s, some problem) => (s, .error problem)
      | (s, none) => (s, totals.means)

/-- What an outlet's device has received of a table in the end, and the summary of its columns. -/
def write (o : Outlet) (labels : List String) (rows : List RatioRow) :
    Device × Except Problem Summary :=
  let (s, result) := sendAll (.new o) labels rows
  (s.buffer.close, result)

end Table

end BenchRatio
