import BenchRatio.Command
import BenchRatio.Proofs.Decimal.Bits
import BenchRatio.Proofs.Json

/-!
# What a report in JSON tells

A program that reads a report gets back what the report is about: all categories, with their means
and benchmarks, and all failures. Only the means that are not finite are lost, and there is a notice
about each of these.

* `Told`: what a report in JSON tells.
* `Told.ofValue?`: how it is taken from the value that has been read.
* `ofValue?_told`: the value that was written tells what was reported.
* `report_json`: **the report in JSON tells everything**.
-/

namespace BenchRatio

/-! ## What is told -/

/-- A column's mean as a report tells it. -/
structure ToldMean where
  label : String
  /-- The mean, unless it was written as `null`. -/
  mean : Option Float
  count : Nat
  deriving DecidableEq

/-- A category as a report tells it. -/
structure ToldReport where
  category : String
  output : String
  summary : List ToldMean
  benchmarks : List String
  deriving DecidableEq

/-- A category without a table as a report tells it. -/
structure ToldFailure where
  category : String
  error : String
  deriving DecidableEq

/-- What a report in JSON tells. -/
structure Told where
  reports : List ToldReport
  failures : List ToldFailure
  deriving DecidableEq

/-- What is told about a column: its mean if that is finite. -/
def ColumnMean.told (c : ColumnMean) : ToldMean :=
  ⟨c.label, if c.mean.isFinite then some c.mean else none, c.count⟩

/-- What is told about a category. -/
def CategoryReport.told (r : CategoryReport) : ToldReport :=
  ⟨r.category, r.output.text, r.summary.map ColumnMean.told, r.benchmarks⟩

/-- What is told about a category without a table. -/
def Failure.told (f : Failure) : ToldFailure := ⟨f.category, f.problem.message⟩

/-- The category and the column of each mean that was written as `null`, in the order of the
report. -/
def Told.nulls (t : Told) : List (String × String) :=
  t.reports.flatMap fun r => (r.summary.filter (·.mean.isNone)).map fun m => (r.category, m.label)

/-! ## Taking it from a value -/

open Json (Value)

/-- A text. -/
def Json.Value.text? : Value → Option String
  | .text s => some s
  | _ => none

/-- A count: a numeral that has only digits. -/
def Json.Value.count? : Value → Option Nat
  | .numeral cs => if cs.all Char.isDigit then some (Digits.number 10 cs) else none
  | _ => none

/-- A mean: the measurement that a numeral stands for, or nothing for `null`. -/
def Json.Value.mean? : Value → Option (Option Float)
  | .null => some none
  | .numeral cs => (Numeral.readList cs).toOption.map some
  | _ => none

/-- A column's mean, with exactly its three members. -/
def ToldMean.ofValue? : Value → Option ToldMean
  | .object [("name", .text label), ("mean", mean), ("count", count)] => do
    some ⟨label, ← mean.mean?, ← count.count?⟩
  | _ => none

/-- A category, with exactly its four members. -/
def ToldReport.ofValue? : Value → Option ToldReport
  | .object [("category", .text category), ("output", .text output), ("summary", .array summary),
      ("benchmarks", .array benchmarks)] => do
    some ⟨category, output, ← summary.mapM ToldMean.ofValue?, ← benchmarks.mapM Value.text?⟩
  | _ => none

/-- A category without a table, with exactly its two members. -/
def ToldFailure.ofValue? : Value → Option ToldFailure
  | .object [("category", .text category), ("error", .text error)] => some ⟨category, error⟩
  | _ => none

/-- A whole report, with exactly its two members. -/
def Told.ofValue? : Value → Option Told
  | .object [("categories", .array reports), ("failed", .array failures)] => do
    some ⟨← reports.mapM ToldReport.ofValue?, ← failures.mapM ToldFailure.ofValue?⟩
  | _ => none

/-! ## What was written is told -/

open Json Decimal Digits

theorem count?_spelled (n : Nat) : (spelled (.count n)).count? = some n := by
  show (if (Nat.toDigits 10 n).all Char.isDigit then _ else _) = _
  rw [if_pos (List.all_eq_true.mpr (isDigit_toDigits n)), number_toDigits]

/-- A finite mean is read back as the same number. -/
theorem mean?_spelled (x : Float) :
    (spelled (.number x)).mean? = some (if x.isFinite then some x else none) := by
  rw [spelled, Binary64.isFinite_eq]
  split
  · show (Numeral.readList (Layout.json.renderList x)).toOption.map some = _
    rw [readList_renderList (.inr rfl)]
    rfl
  · rfl

/-- What all items of a list tell, if each of them tells something. -/
theorem mapM_map_of_forall {α β γ : Type} {f : α → β} {g : β → Option γ} {h : α → γ} {as : List α}
    (hf : ∀ a ∈ as, g (f a) = some (h a)) : (as.map f).mapM g = some (as.map h) := by
  induction as with
  | nil => rfl
  | cons a as ih =>
    obtain ⟨ha, has⟩ := List.forall_mem_cons.mp hf
    rw [List.map_cons, List.mapM_cons, ha, ih has]
    rfl

theorem ofValue?_mean (c : ColumnMean) :
    ToldMean.ofValue? (spelled (.object [("name", .text c.label), ("mean", .number c.mean),
      ("count", .count c.count)])) = some c.told := by
  show (do some ⟨c.label, ← (spelled (.number c.mean)).mean?,
    ← (spelled (.count c.count)).count?⟩ : Option ToldMean) = _
  rw [mean?_spelled, count?_spelled]
  rfl

theorem ofValue?_report (r : CategoryReport) :
    ToldReport.ofValue? (spelled r.toJson) = some r.told := by
  have hsummary : (spelledItems (r.summary.map fun c => .object [("name", .text c.label),
      ("mean", .number c.mean), ("count", .count c.count)])).mapM ToldMean.ofValue? =
      some (r.summary.map ColumnMean.told) := by
    rw [spelledItems_eq, List.map_map]
    exact mapM_map_of_forall fun c _ => ofValue?_mean c
  have hbenchmarks : (spelledItems (r.benchmarks.map .text)).mapM Value.text? =
      some r.benchmarks := by
    rw [spelledItems_eq, List.map_map]
    have htexts : ∀ s ∈ r.benchmarks, Value.text? ((spelled ∘ Json.text) s) = some (id s) :=
      fun _ _ => rfl
    rw [mapM_map_of_forall htexts, List.map_id]
  show (do some ⟨r.category, r.output.text, ← (spelledItems _).mapM ToldMean.ofValue?,
    ← (spelledItems _).mapM Value.text?⟩ : Option ToldReport) = _
  rw [hsummary, hbenchmarks]
  rfl

/-- The value that was written tells what was reported. -/
theorem ofValue?_told (reports : List CategoryReport) (failures : List Failure) :
    Told.ofValue? (spelled (.object [("categories", .array (reports.map CategoryReport.toJson)),
      ("failed", .array (failures.map Report.failureToJson))])) =
      some ⟨reports.map CategoryReport.told, failures.map Failure.told⟩ := by
  have hreports : (spelledItems (reports.map CategoryReport.toJson)).mapM ToldReport.ofValue? =
      some (reports.map CategoryReport.told) := by
    rw [spelledItems_eq, List.map_map]
    exact mapM_map_of_forall fun r _ => ofValue?_report r
  have hfailures : (spelledItems (failures.map Report.failureToJson)).mapM ToldFailure.ofValue? =
      some (failures.map Failure.told) := by
    rw [spelledItems_eq, List.map_map]
    exact mapM_map_of_forall fun f _ => rfl
  show (do some ⟨← (spelledItems _).mapM ToldReport.ofValue?,
    ← (spelledItems _).mapM ToldFailure.ofValue?⟩ : Option Told) = _
  rw [hreports, hfailures]
  rfl

/-! ## The notices -/

/-- A notice about a mean that is not finite, as a warning that names its category and its
column. -/
def Notice.WarnsOf (n : Notice) (null : String × String) : Prop :=
  n.severity = .warn ∧ ∃ mean : Float, mean.isFinite = false ∧ n = .nullMean null.1 null.2 mean

/-- There is a notice about each mean that is told as `null`, in their order. -/
theorem forall₂_nullNotices (reports : List CategoryReport) (failures : List ToldFailure) :
    List.Forall₂ Notice.WarnsOf (Report.nullNotices reports)
      (Told.nulls ⟨reports.map CategoryReport.told, failures⟩) := by
  have hrow : ∀ r ∈ reports, List.Forall₂ Notice.WarnsOf
      ((r.summary.filter fun c => !Binary64.isFinite c.mean).map fun c =>
        .nullMean r.category c.label c.mean)
      ((r.told.summary.filter (·.mean.isNone)).map fun m => (r.told.category, m.label)) := by
    intro r _
    have htold : (r.told.summary.filter (·.mean.isNone)) =
        (r.summary.filter fun c => !Binary64.isFinite c.mean).map ColumnMean.told := by
      show (r.summary.map ColumnMean.told).filter _ = _
      rw [List.filter_map]
      refine congrArg _ (List.filter_congr fun c _ => ?_)
      show (if c.mean.isFinite then some c.mean else none).isNone = !Binary64.isFinite c.mean
      rw [Binary64.isFinite_eq]
      cases c.mean.isFinite <;> rfl
    rw [htold, List.map_map, List.forall₂_map_left_iff, List.forall₂_map_right_iff,
      List.forall₂_same]
    intro c hc
    have hmean := (List.mem_filter.mp hc).2
    rw [Binary64.isFinite_eq, Bool.not_eq_true'] at hmean
    exact ⟨rfl, c.mean, hmean, rfl⟩
  show List.Forall₂ _ (reports.flatMap _) ((reports.map CategoryReport.told).flatMap _)
  rw [List.flatMap_map]
  induction reports with
  | nil => exact .nil
  | cons r more ih =>
    obtain ⟨hfirst, hmore⟩ := List.forall_mem_cons.mp hrow
    rw [List.flatMap_cons, List.flatMap_cons]
    exact List.rel_append hfirst (ih hmore)

/-- **The report in JSON tells everything.** What arrives on standard output is one line without a
control character and a line feed. The line is an object with exactly two members, and it tells
every category with its output, its means and its benchmarks and every failure with its words, in
their order and character for character; a mean that is finite is told as the same number, and
exactly the others are told as `null`. The notices are one warning for each `null`, in the order of
the report, and name its category and its column. -/
theorem Command.report_json (p : Command.Progress) :
    ∃ line members told,
      Command.print .ready (Command.report .json p).result =
        (String.ofList (line ++ ['\n']), none) ∧
      (∀ c ∈ line, isControl c = false) ∧
      read? line = some (.object members) ∧
      members.map (·.1) = ["categories", "failed"] ∧
      Told.ofValue? (.object members) = some told ∧
      told.reports = p.reports.map CategoryReport.told ∧
      told.failures = p.failures.map Failure.told ∧
      List.Forall₂ Notice.WarnsOf (Command.report .json p).notices told.nulls := by
  let reports := Json.array (p.reports.map CategoryReport.toJson)
  let failures := Json.array (p.failures.map Report.failureToJson)
  let written := Json.object [("categories", reports), ("failed", failures)]
  refine ⟨renderList written, [("categories", spelled reports), ("failed", spelled failures)],
    ⟨p.reports.map CategoryReport.told, p.failures.map Failure.told⟩, ?_,
    isControl_of_mem_renderList written, read?_renderList written, rfl,
    ofValue?_told p.reports p.failures, rfl, rfl, forall₂_nullNotices p.reports _⟩
  show (written.render ++ "\n", none) = _
  rw [render, String.ofList_append]

end BenchRatio
