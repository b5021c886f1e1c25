import BenchRatio.Measurements.Loading
import BenchRatio.Output.File

/-!
# Categories

A category compares the results files of some treatments with that of a baseline and writes one
table. All files are loaded before anything is written.

* `Category.run`: loads, compares, writes and reports.
-/

namespace BenchRatio

/-- A results file and the label of its column. -/
structure Source where
  label : String
  path : Path
  deriving DecidableEq, Repr

/-- What is compared, and where the table goes. -/
structure Category where
  name : String
  baseline : Source
  /-- The treatments in the order of their columns. -/
  treatments : List Source
  output : Path
  deriving DecidableEq, Repr

/-- What is reported about a category. -/
structure CategoryReport where
  category : String
  output : Path
  summary : Summary
  /-- The benchmarks of the baseline, in the order of the table's rows. -/
  benchmarks : List String

namespace Category

/-- The sources in the order in which they are loaded and of their columns. -/
def sources (c : Category) : List Source := c.baseline :: c.treatments

/-- The labels of the columns, the baseline's first. -/
def labels (c : Category) : List String := c.sources.map (·.label)

/-- Compares loaded measurements, the baseline's first, and writes the table. -/
def write (s : Store) (c : Category) (baseline : Measurements) (treatments : List Measurements) :
    Store × Logged (Except Problem CategoryReport) :=
  let table := ratioTable baseline treatments
  match Table.writeFile s c.output c.labels table.result with
  | (s, .error problem) => (s, ⟨table.notices, .error problem⟩)
  | (s, .ok summary) =>
    (s, ⟨table.notices ++ [.wrote table.result.length c.output],
      .ok ⟨c.name, c.output, summary, baseline.keys⟩⟩)

/-- Loads all files of a category, the baseline's first, and compares and writes them. -/
def run (s : Store) (d : Dialect) (c : Category) :
    Store × Logged (Except Problem CategoryReport) :=
  let started := Notice.started c.name c.treatments.length c.baseline.path
  let first := Measurements.load s d c.baseline.path
  match first.result with
  | .error problem => (s, ⟨started :: first.notices, .error problem⟩)
  | .ok baseline =>
    let others := Measurements.loadAll s d (c.treatments.map (·.path))
    match others.result with
    | .error problem => (s, ⟨started :: first.notices ++ others.notices, .error problem⟩)
    | .ok treatments =>
      let (s, written) := write s c baseline treatments
      (s, ⟨started :: first.notices ++ others.notices ++ written.notices, written.result⟩)

end Category

end BenchRatio
