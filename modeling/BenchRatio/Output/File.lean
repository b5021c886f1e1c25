import BenchRatio.Output.Table
import BenchRatio.Store

/-!
# Writing tables to files

* `Table.writeFile`: a table in a file, whose directory is made if it is missing.
-/

namespace BenchRatio.Table

/-- The device behind an open file. -/
def deviceFor : Option Node → Device
  | some (.device (some fault)) => .limited 0 fault
  | _ => .unlimited

/-- What an open file holds after bytes have been written to it; a device holds nothing. -/
def settle (s : Store) (place : Place) (received : Bytes) : Store :=
  match s.node? place with
  | some (.file _) => s.put place (.file received)
  | _ => s

/-- What is said of a file whose records differ in width. -/
def raggedWords (expected actual : Nat) : String :=
  "UnequalLengths \x7b pos: None, expected_len: " ++ toString expected ++ ", len: " ++
    toString actual ++ " \x7d"

/-- A problem of the output, as one of the file that is written. -/
def atPath (p : Path) : Problem → Problem
  | .recordRefused cause | .streamFailed cause => .unwritable p cause
  | .ragged expected actual => .unwritable p (.other (raggedWords expected actual))
  | problem => problem

/-- Makes the directory above a path, if the path has one. -/
def makeParent (s : Store) (p : Path) : Store × Option Fault :=
  match p.parent? with
  | none => (s, none)
  | some above => s.makeDirs above

/-- Writes a table to a file. The directory above it is made first, then the file is emptied; what
has been written before a problem stays in it. -/
def writeFile (s : Store) (p : Path) (labels : List String) (rows : List RatioRow) :
    Store × Except Problem Summary :=
  match makeParent s p with
  | (s, some cause) => (s, .error (.unwritable p cause))
  | (s, none) =>
    match s.create p with
    | .error cause => (s, .error (.unwritable p cause))
    | .ok (s, place) =>
      let (device, result) := write (.buffered (deviceFor (s.node? place))) labels rows
      (settle s place device.received.toList, result.mapError (atPath p))

end BenchRatio.Table
