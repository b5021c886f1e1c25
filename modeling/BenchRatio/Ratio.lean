import BenchRatio.Measurements
import BenchRatio.Notice

/-!
# Ratios to the baseline

Every benchmark of the baseline gives one row. The row's first ratio is the baseline's own, which is
one, and each treatment adds its measurement divided by the baseline's. A treatment without the
benchmark, or with the measurement zero that marks a failed run, has no ratio there.

* `ratioTable`: the rows of a table, one for each benchmark of the baseline in ascending order.
* `benchmarks_ratioTable`: the rows are exactly the baseline's benchmarks.
* `length_ratios_of_mem_ratioTable`: each row has one ratio more than there are treatments.
-/

namespace BenchRatio

/-- A treatment's measurement relative to the baseline's. -/
inductive Ratio
  | defined (value : Float)
  /-- The treatment has no measurement to compare. -/
  | undefined

namespace Ratio

/-- The ratio as a number, if it is defined. -/
def value? : Ratio → Option Float
  | .defined value => some value
  | .undefined => none

/-- What stands in a table: nothing for an undefined ratio. -/
def text : Ratio → String
  | .defined value => Decimal.Layout.cell.render value
  | .undefined => ""

/-- A measurement relative to the baseline's. A failed run is like a missing one. -/
def ofMeasurement (base : Float) : Option Float → Ratio
  | some value => if value != 0.0 then .defined (value / base) else .undefined
  | none => .undefined

end Ratio

/-- The ratios for one benchmark, the baseline's first and then one for each treatment. -/
structure RatioRow where
  benchmark : String
  ratios : List Ratio

/-- The row of a benchmark with the given measurement in the baseline. -/
def ratioRow (treatments : List Measurements) (benchmark : String) (base : Float) : RatioRow where
  benchmark := benchmark
  ratios := .defined 1.0 :: treatments.map fun t => .ofMeasurement base (t.get? benchmark)

/-- The notice about a benchmark whose baseline is zero. -/
def zeroNotices (benchmark : String) (base : Float) : List Notice :=
  if base == 0.0 then [.zeroBaseline benchmark] else []

/-- The ratios of all treatments to a baseline. -/
def ratioTable (baseline : Measurements) (treatments : List Measurements) :
    Logged (List RatioRow) where
  notices := baseline.entries.flatMap fun e => zeroNotices e.1 e.2
  result := baseline.entries.map fun e => ratioRow treatments e.1 e.2

theorem benchmarks_ratioTable (baseline : Measurements) (treatments : List Measurements) :
    (ratioTable baseline treatments).result.map (·.benchmark) = baseline.keys := by
  simp [ratioTable, ratioRow, SortedMap.keys]

theorem length_ratios_of_mem_ratioTable {baseline : Measurements} {treatments : List Measurements}
    {row : RatioRow} (h : row ∈ (ratioTable baseline treatments).result) :
    row.ratios.length = treatments.length + 1 := by
  obtain ⟨e, -, rfl⟩ := List.mem_map.mp h
  simp [ratioRow]

end BenchRatio
