import BenchRatio.Decimal.Layout
import BenchRatio.Problem

/-!
# Notices

A run reports what it does in notices, in the order in which things happen.

* `Notice.message`, `Notice.severity`, `Notice.scope`: a notice's words, weight and sender.
* `Logged`: a result together with the notices given on the way to it.
-/

namespace BenchRatio

/-- How much a notice matters. -/
inductive Severity
  | debug
  | info
  | warn
  | error
  deriving DecidableEq, Repr

/-- The name of a severity. -/
def Severity.name : Severity → String
  | .debug => "DEBUG"
  | .info => "INFO"
  | .warn => "WARN"
  | .error => "ERROR"

/-- Something that happened in a run. -/
inductive Notice
  /-- A row replaces the measurement of an earlier row with the same name. -/
  | replaced (origin : String) (row : Nat) (name : String) (old new : Float)
  | loaded (count : Nat) (origin : String)
  /-- Ratios to a baseline of zero are not finite. -/
  | zeroBaseline (name : String)
  | started (category : String) (treatments : Nat) (baseline : Path)
  | wrote (rows : Nat) (output : Path)
  | failed (category : String) (problem : Problem)
  /-- A mean that is not finite has no spelling in JSON. -/
  | nullMean (category label : String) (mean : Float)

namespace Notice

/-- The notice in words. -/
def message : Notice → String
  | .replaced origin row name old new =>
    s!"{origin}: row {row}: '{name}' repeats, replacing {Decimal.Layout.plain.render old} " ++
      s!"with {Decimal.Layout.plain.render new}"
  | .loaded count origin => s!"loaded {count} benchmarks from {origin}"
  | .zeroBaseline name => s!"baseline value for '{name}' is zero; its ratios are not finite"
  | .started category treatments baseline =>
    s!"aggregating {category} ({treatments} treatments against {baseline.text})"
  | .wrote rows output => s!"wrote {rows} rows to {output.text}"
  | .failed category problem => s!"{category} aggregation failed: {problem.message}"
  | .nullMean category label mean =>
    s!"{category} mean for '{label}' is {Decimal.Layout.cell.render mean}; " ++
      "the JSON report writes it as null"

/-- How much the notice matters. -/
def severity : Notice → Severity
  | .replaced .. | .loaded .. => .debug
  | .started .. | .wrote .. => .info
  | .zeroBaseline .. | .nullMean .. => .warn
  | .failed .. => .error

/-- The part of the program that gives the notice, as the log names it. -/
def scope : Notice → String
  | .replaced .. | .loaded .. => "bench_aggregate::results"
  | .zeroBaseline .. => "bench_aggregate::aggregate"
  | .started .. | .wrote .. => "bench_aggregate"
  | .failed .. | .nullMean .. => "bench_aggregate::cli"

end Notice

/-- A result and the notices given on the way to it. -/
structure Logged (α : Type) where
  notices : List Notice
  result : α

end BenchRatio
