import BenchRatio.Category
import BenchRatio.Json
import BenchRatio.Text.Capital

/-!
# Reports

The report on a run comes as text or as JSON. The text has the means of each category and then the
benchmarks of each; the JSON has the categories with a table and those without.

* `Report.text`, `Report.json`: the two forms.
* `Report.nullNotices`: the means that JSON cannot spell.
-/

namespace BenchRatio

/-- A category without a table. -/
structure Failure where
  category : String
  problem : Problem

namespace Summary

/-- A summary in JSON. -/
def toJson (s : Summary) : Json :=
  .array (s.map fun c =>
    .object [("name", .text c.label), ("mean", .number c.mean), ("count", .count c.count)])

end Summary

namespace CategoryReport

/-- A category's report in JSON. -/
def toJson (r : CategoryReport) : Json :=
  .object [("category", .text r.category), ("output", .text r.output.text),
    ("summary", r.summary.toJson), ("benchmarks", .array (r.benchmarks.map .text))]

end CategoryReport

namespace Report

/-- What the means of a category are called: the category's name with a capital letter and without
the `s` of the plural, unless nothing else would be left. -/
def meansLabel (category : String) : String :=
  let cs := category.toList
  let stem := if cs.getLast? = some 's' ∧ 1 < cs.length then cs.dropLast else cs
  match stem with
  | [] => ""
  | first :: more => String.ofList (Text.capital first ++ more)

/-- The lines about the means of a category. -/
def meanLines (r : CategoryReport) : List String :=
  s!"{meansLabel r.category} means:" ::
    r.summary.map fun c => s!"  {c.label}: {Decimal.Layout.cell.render c.mean} (n={c.count})"

/-- The line about the benchmarks of a category. -/
def benchmarkLine (r : CategoryReport) : String :=
  r.category ++ " benchmarks: " ++ ",".intercalate r.benchmarks

/-- The report as text: all means, then all benchmarks. -/
def text (reports : List CategoryReport) : String :=
  String.join ((reports.flatMap meanLines ++ reports.map benchmarkLine).map (· ++ "\n"))

/-- A category without a table in JSON. -/
def failureToJson (f : Failure) : Json :=
  .object [("category", .text f.category), ("error", .text f.problem.message)]

/-- The report as one line of JSON. -/
def json (reports : List CategoryReport) (failures : List Failure) : String :=
  (Json.object [("categories", .array (reports.map CategoryReport.toJson)),
    ("failed", .array (failures.map failureToJson))]).render ++ "\n"

/-- The notices about means that JSON cannot spell. -/
def nullNotices (reports : List CategoryReport) : List Notice :=
  reports.flatMap fun r =>
    (r.summary.filter fun c => !Binary64.isFinite c.mean).map fun c =>
      .nullMean r.category c.label c.mean

end Report

end BenchRatio
