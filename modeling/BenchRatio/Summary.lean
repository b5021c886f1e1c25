import BenchRatio.Ratio

/-!
# Mean ratios

A column's mean is taken over the rows where that column has a ratio, so columns may be averaged
over different benchmarks. Rows are added one after the other; a row of the wrong width is refused
and changes nothing.

* `Totals.observe`, `Totals.offer`: adds a row, or says why it is refused.
* `Totals.means`: every column's mean, or the first column without a ratio.
* `columns_observe_labels`: a row changes no label.
-/

namespace BenchRatio

/-- A column's ratios so far. -/
structure ColumnTotal where
  label : String
  sum : Float
  count : Nat

/-- The mean of a column and the number of ratios behind it. -/
structure ColumnMean where
  label : String
  mean : Float
  count : Nat

/-- The means of a table's columns, the baseline's first. -/
abbrev Summary := List ColumnMean

/-- The mean of the first column with a label. -/
def Summary.find? (s : Summary) (label : String) : Option ColumnMean :=
  List.find? (fun c => c.label == label) s

/-- Adds a ratio to a column if it is defined. -/
def ColumnTotal.add (c : ColumnTotal) (r : Ratio) : ColumnTotal :=
  match r.value? with
  | some value => { c with sum := c.sum + value, count := c.count + 1 }
  | none => c

/-- The column's mean, if it has a ratio. -/
def ColumnTotal.mean (c : ColumnTotal) : Except Problem ColumnMean :=
  if c.count = 0 then .error (.emptyColumn c.label)
  else .ok ⟨c.label, c.sum / Float.ofNat c.count, c.count⟩

/-- The columns of a table so far. -/
structure Totals where
  columns : List ColumnTotal

namespace Totals

/-- Columns without a row. -/
def start (labels : List String) : Totals := ⟨labels.map fun label => ⟨label, 0.0, 0⟩⟩

/-- Adds a row, which must have a ratio for each column. -/
def observe (t : Totals) (row : RatioRow) : Except Problem Totals :=
  if row.ratios.length = t.columns.length then
    .ok ⟨List.zipWith ColumnTotal.add t.columns row.ratios⟩
  else .error (.widthMismatch row.benchmark t.columns.length row.ratios.length)

/-- Adds a row in place. A row that is refused is reported, and the columns stay as they are. -/
def offer (t : Totals) (row : RatioRow) : Totals × Option Problem :=
  match t.observe row with
  | .ok t' => (t', none)
  | .error problem => (t, some problem)

/-- Every column's mean, or the first column without a ratio. -/
def means (t : Totals) : Except Problem Summary := t.columns.mapM ColumnTotal.mean

theorem label_add (c : ColumnTotal) (r : Ratio) : (c.add r).label = c.label := by
  unfold ColumnTotal.add
  split <;> rfl

/-- A row changes no label. -/
theorem columns_observe_labels {t u : Totals} {row : RatioRow} (h : t.observe row = .ok u) :
    u.columns.map (·.label) = t.columns.map (·.label) := by
  unfold observe at h
  split at h
  · next hlen =>
    cases h
    generalize t.columns = cs at hlen
    generalize row.ratios = rs at hlen
    induction cs generalizing rs with
    | nil => simp
    | cons c cs ih =>
      cases rs with
      | nil => simp at hlen
      | cons r rs => simpa [label_add] using ih rs (by simpa using hlen)
  · cases h

end Totals

end BenchRatio
