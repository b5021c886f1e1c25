import BenchRatio.Output.File
import BenchRatio.Proofs.Output.Table

/-!
# How writing a table ends

Rows are checked before they are written, so all records are as wide as the header and no record is
ever refused for its width. Writing ends with a summary, with a column without a ratio, with the
first row of the wrong width or with a failure of the output. On the way to a file, such a failure
becomes one of the file's path.

* `Ends`: the ways in which writing ends, with the rows that are written then.
* `ends_totals`, `ends_write`: how the totals and an outlet end.
* `Ends.ne_ragged`: it never ends with a record that is refused for its width.
* `Ends.atPath`: how it ends on the way to a file.
* `length_of_mem_records`: all records have one width.
-/

namespace BenchRatio.Table

/-- How writing rows ends, and which of them are written then; a failure says nothing of that. What
counts as a failure of the output is left open. -/
inductive Ends (IsFailure : Problem → Prop) (labels : List String) :
    List RatioRow → List RatioRow → Except Problem Summary → Prop
  | summary {rows : List RatioRow} {summary : Summary}
      (fit : ∀ row ∈ rows, row.ratios.length = labels.length) :
      Ends IsFailure labels rows rows (.ok summary)
  | emptyColumn {rows : List RatioRow} {label : String}
      (fit : ∀ row ∈ rows, row.ratios.length = labels.length) :
      Ends IsFailure labels rows rows (.error (.emptyColumn label))
  | widthMismatch {good rest : List RatioRow} {row : RatioRow}
      (fit : ∀ r ∈ good, r.ratios.length = labels.length)
      (wrong : row.ratios.length ≠ labels.length) :
      Ends IsFailure labels (good ++ row :: rest) good
        (.error (.widthMismatch row.benchmark labels.length row.ratios.length))
  | failed {rows written : List RatioRow} {problem : Problem} (failure : IsFailure problem) :
      Ends IsFailure labels rows written (.error problem)

/-- The output has refused bytes. -/
def OutputFailure (problem : Problem) : Prop :=
  ∃ cause, problem = .recordRefused cause ∨ problem = .streamFailed cause

/-- A file could not be written. -/
def Unwritable (p : Path) (problem : Problem) : Prop := ∃ cause, problem = .unwritable p cause

variable {labels : List String} {rows written : List RatioRow}

theorem goodRows_append {width : Nat} {good rest : List RatioRow} {row : RatioRow}
    (hgood : ∀ r ∈ good, r.ratios.length = width) (hrow : row.ratios.length ≠ width) :
    goodRows width (good ++ row :: rest) = good := by
  rw [goodRows, List.takeWhile_append_of_pos fun r hr => decide_eq_true (hgood r hr),
    List.takeWhile_cons_of_neg (by simpa using hrow), List.append_nil]

/-- The totals of the rows decide, as long as the output does not fail. -/
theorem ends_totals (IsFailure : Problem → Prop) (labels : List String) (rows : List RatioRow) :
    Ends IsFailure labels rows (goodRows labels.length rows)
      (((Totals.start labels).observeAll rows).bind Totals.means) := by
  rcases Totals.outcome_cases labels rows with
    ⟨hfit, ⟨summary, hok⟩ | ⟨label, hempty⟩⟩ | ⟨good, row, rest, rfl, hgood, hrow, hwrong⟩
  · rw [goodRows_eq hfit, hok]
    exact .summary hfit
  · rw [goodRows_eq hfit, hempty]
    exact .emptyColumn hfit
  · rw [goodRows_append hgood hrow, hwrong]
    exact .widthMismatch hgood hrow

theorem ends_write (o : Outlet) (labels : List String) (rows : List RatioRow) :
    Ends OutputFailure labels rows (goodRows labels.length rows) (write o labels rows).2 := by
  change Ends _ _ _ _ (sendAll (.new o) labels rows).2
  obtain ⟨-, ⟨hresult, -⟩ | ⟨-, -, cause, hfail | hfail⟩⟩ := sendAll_cases o labels rows
  · rw [hresult]
    exact ends_totals OutputFailure labels rows
  · rw [hfail]
    exact .failed ⟨cause, .inl rfl⟩
  · rw [hfail]
    exact .failed ⟨cause, .inr rfl⟩

theorem Ends.ne_ragged {result : Except Problem Summary}
    (h : Ends OutputFailure labels rows written result) (expected actual : Nat) :
    result ≠ .error (.ragged expected actual) := by
  rintro rfl
  cases h with
  | failed failure => simp [OutputFailure] at failure

/-- On the way to a file only failures change. -/
theorem Ends.atPath {IsFailure IsOther : Problem → Prop} {result : Except Problem Summary}
    (h : Ends IsFailure labels rows written result) {p : Path}
    (hfailure : ∀ problem, IsFailure problem → IsOther (Table.atPath p problem)) :
    Ends IsOther labels rows written (result.mapError (Table.atPath p)) := by
  cases h with
  | summary fit => exact .summary fit
  | emptyColumn fit => exact .emptyColumn fit
  | widthMismatch fit wrong => exact .widthMismatch fit wrong
  | failed failure => exact .failed (hfailure _ failure)

theorem unwritable_atPath (p : Path) (problem : Problem) (h : OutputFailure problem) :
    Unwritable p (atPath p problem) := by
  obtain ⟨cause, rfl | rfl⟩ := h
  · exact ⟨cause, rfl⟩
  · exact ⟨cause, rfl⟩

/-- All records that are written are as wide as the header. -/
theorem length_of_mem_records {fields : List Bytes}
    (h : fields ∈ header labels :: (goodRows labels.length rows).map record) :
    fields.length = labels.length + 1 := by
  rcases List.mem_cons.mp h with rfl | h
  · simp [header]
  · obtain ⟨row, hrow, rfl⟩ := List.mem_map.mp h
    have hwidth : row.ratios.length = labels.length := by
      simpa using List.mem_takeWhile_imp hrow
    simp [record, hwidth]

end BenchRatio.Table
