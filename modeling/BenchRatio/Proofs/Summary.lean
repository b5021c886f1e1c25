import BenchRatio.Summary
import Mathlib.Tactic.Common

/-!
# Totals of many rows

Each column is added up by itself: after any number of rows its sum and its count are those of its
own defined ratios, in the order of the rows.

* `foldl_add`: a column after some ratios.
* `columns_observeAll`: every column after some rows of the right width.
* `rows_cases`: all rows have the right width, or there is a first one that has not.
* `observeAll_refused`: the first row of the wrong width is the one that is reported.
* `means_cases`: the means, or the first column without a ratio.
* `outcome_cases`: what rows can lead to.
* `summary_of_rows`: a summary has every label's own count and mean.
-/

namespace BenchRatio

/-- The ratios in one column of a table. -/
def column (rows : List RatioRow) (i : Nat) : List Ratio := rows.filterMap fun row => row.ratios[i]?

/-- A column's sum and count are those of its defined ratios. -/
theorem ColumnTotal.foldl_add (c : ColumnTotal) (ratios : List Ratio) :
    ratios.foldl add c = ⟨c.label, (ratios.filterMap Ratio.value?).foldl (· + ·) c.sum,
      c.count + (ratios.filterMap Ratio.value?).length⟩ := by
  induction ratios generalizing c with
  | nil => rfl
  | cons r ratios ih =>
    rw [List.foldl_cons, ih]
    cases r with
    | undefined => rfl
    | defined value =>
      have hadd : c.add (.defined value) = ⟨c.label, c.sum + value, c.count + 1⟩ := rfl
      rw [hadd, List.filterMap_cons_some (by rfl), List.foldl_cons, List.length_cons]
      simp only [ColumnTotal.mk.injEq, true_and]
      omega

namespace Totals

/-- Adds rows one after the other, up to the first one that is refused. -/
def observeAll (t : Totals) (rows : List RatioRow) : Except Problem Totals := rows.foldlM observe t

theorem observeAll_cons (t : Totals) (row : RatioRow) (rows : List RatioRow) :
    t.observeAll (row :: rows) = (t.observe row).bind fun u => u.observeAll rows := rfl

theorem observe_of_length {t : Totals} {row : RatioRow}
    (h : row.ratios.length = t.columns.length) :
    t.observe row = .ok ⟨List.zipWith ColumnTotal.add t.columns row.ratios⟩ := if_pos h

theorem length_zipWith_add {t : Totals} {row : RatioRow}
    (h : row.ratios.length = t.columns.length) :
    (List.zipWith ColumnTotal.add t.columns row.ratios).length = t.columns.length := by
  rw [List.length_zipWith, h, Nat.min_self]

/-- Every column is added up by itself. -/
theorem columns_observeAll {t : Totals} {rows : List RatioRow}
    (h : ∀ row ∈ rows, row.ratios.length = t.columns.length) :
    ∃ u, t.observeAll rows = .ok u ∧ u.columns.length = t.columns.length ∧
      ∀ i c, t.columns[i]? = some c →
        u.columns[i]? = some ((column rows i).foldl ColumnTotal.add c) := by
  induction rows generalizing t with
  | nil => exact ⟨t, rfl, rfl, fun i c hc => hc⟩
  | cons row rows ih =>
    have hrow := h row List.mem_cons_self
    have hlen := length_zipWith_add hrow
    obtain ⟨u, hu, hulen, hcolumns⟩ := ih (t := ⟨List.zipWith ColumnTotal.add t.columns row.ratios⟩)
      fun r hr => (h r (List.mem_cons_of_mem _ hr)).trans hlen.symm
    refine ⟨u, ?_, hulen.trans hlen, fun i c hc => ?_⟩
    · rw [observeAll_cons, observe_of_length hrow]
      exact hu
    · obtain ⟨hi, -⟩ := List.getElem?_eq_some_iff.mp hc
      have hr : row.ratios[i]? = some row.ratios[i] := List.getElem?_eq_getElem (by omega)
      have hcolumn : column (row :: rows) i = row.ratios[i] :: column rows i :=
        List.filterMap_cons_some hr
      rw [hcolumn, List.foldl_cons]
      refine hcolumns i _ ?_
      rw [List.getElem?_zipWith, hc, hr]

/-- All rows have the right width, or one of them is the first that has not. -/
theorem rows_cases (width : Nat) (rows : List RatioRow) :
    (∀ row ∈ rows, row.ratios.length = width) ∨
      ∃ good row rest, rows = good ++ row :: rest ∧ (∀ r ∈ good, r.ratios.length = width) ∧
        row.ratios.length ≠ width := by
  induction rows with
  | nil => exact .inl (by simp)
  | cons row rows ih =>
    by_cases hrow : row.ratios.length = width
    · rcases ih with h | ⟨good, bad, rest, rfl, hgood, hbad⟩
      · exact .inl (List.forall_mem_cons.mpr ⟨hrow, h⟩)
      · exact .inr ⟨row :: good, bad, rest, rfl, List.forall_mem_cons.mpr ⟨hrow, hgood⟩, hbad⟩
    · exact .inr ⟨[], row, rows, rfl, by simp, hrow⟩

/-- The first row of the wrong width is the one that is reported. -/
theorem observeAll_refused {t : Totals} {width : Nat} (ht : t.columns.length = width)
    {good : List RatioRow} {row : RatioRow} (hgood : ∀ r ∈ good, r.ratios.length = width)
    (hrow : row.ratios.length ≠ width) (rest : List RatioRow) :
    t.observeAll (good ++ row :: rest) =
      .error (.widthMismatch row.benchmark width row.ratios.length) := by
  subst ht
  obtain ⟨u, hok, hlength, -⟩ := columns_observeAll hgood
  have hsplit : t.observeAll (good ++ row :: rest) =
      (t.observeAll good).bind fun u => u.observeAll (row :: rest) := List.foldlM_append
  rw [hsplit, hok, Except.bind, observeAll_cons, observe, if_neg (hlength ▸ hrow), hlength]
  rfl

/-- The means of all columns, or the label of the first one without a ratio. -/
theorem means_cases (t : Totals) :
    ((∀ c ∈ t.columns, c.count ≠ 0) ∧
      t.means = .ok (t.columns.map fun c => ⟨c.label, c.sum / Float.ofNat c.count, c.count⟩)) ∨
    ∃ before c after, t.columns = before ++ c :: after ∧ (∀ b ∈ before, b.count ≠ 0) ∧
      c.count = 0 ∧ t.means = .error (.emptyColumn c.label) := by
  unfold means
  induction t.columns with
  | nil => exact .inl ⟨by simp, rfl⟩
  | cons c cs ih =>
    rw [List.mapM_cons]
    by_cases hc : c.count = 0
    · refine .inr ⟨[], c, cs, rfl, by simp, hc, ?_⟩
      rw [ColumnTotal.mean, if_pos hc]
      rfl
    · rw [ColumnTotal.mean, if_neg hc]
      rcases ih with ⟨hall, hok⟩ | ⟨before, d, after, rfl, hbefore, hd, herr⟩
      · refine .inl ⟨by simpa using ⟨hc, hall⟩, ?_⟩
        rw [hok]
        rfl
      · refine .inr ⟨c :: before, d, after, rfl, by simpa using ⟨hc, hbefore⟩, hd, ?_⟩
        rw [herr]
        rfl

theorem length_start (labels : List String) : (start labels).columns.length = labels.length := by
  simp [start]

/-- The columns after some rows of the right width, by label. -/
theorem columns_of_rows {labels : List String} {rows : List RatioRow}
    (h : ∀ row ∈ rows, row.ratios.length = labels.length) :
    ∃ t, (start labels).observeAll rows = .ok t ∧ t.columns.length = labels.length ∧
      ∀ (i : Nat) (label : String), labels[i]? = some label → t.columns[i]? =
        some ⟨label, ((column rows i).filterMap Ratio.value?).foldl (· + ·) 0.0,
          ((column rows i).filterMap Ratio.value?).length⟩ := by
  obtain ⟨t, hok, hlength, hcolumns⟩ :=
    columns_observeAll fun row hrow => (h row hrow).trans (length_start labels).symm
  refine ⟨t, hok, hlength.trans (length_start labels), fun i label hlabel => ?_⟩
  rw [hcolumns i ⟨label, 0.0, 0⟩ (by simp [start, hlabel]), ColumnTotal.foldl_add, Nat.zero_add]

/-- Rows of the right width have a summary or a column without a ratio; otherwise the first row of
the wrong width is reported. -/
theorem outcome_cases (labels : List String) (rows : List RatioRow) :
    let outcome := ((start labels).observeAll rows).bind means
    ((∀ row ∈ rows, row.ratios.length = labels.length) ∧
      ((∃ summary, outcome = .ok summary) ∨ ∃ label, outcome = .error (.emptyColumn label))) ∨
      ∃ good row rest, rows = good ++ row :: rest ∧
        (∀ r ∈ good, r.ratios.length = labels.length) ∧ row.ratios.length ≠ labels.length ∧
        outcome = .error (.widthMismatch row.benchmark labels.length row.ratios.length) := by
  rcases rows_cases labels.length rows with hwidth | ⟨good, row, rest, rfl, hgood, hrow⟩
  · obtain ⟨t, hok, -, -⟩ := columns_of_rows hwidth
    rw [hok, Except.bind]
    rcases means_cases t with ⟨-, hmeans⟩ | ⟨_, c, _, -, -, -, hmeans⟩
    · exact .inl ⟨hwidth, .inl ⟨_, hmeans⟩⟩
    · exact .inl ⟨hwidth, .inr ⟨c.label, hmeans⟩⟩
  · have hrefused := observeAll_refused (length_start labels) hgood hrow rest
    exact .inr ⟨good, row, rest, rfl, hgood, hrow, by rw [hrefused, Except.bind]⟩

/-- A summary has every label's own count and mean, and there is none if a row has the wrong
width. -/
theorem summary_of_rows {labels : List String} {rows : List RatioRow} {summary : Summary}
    (h : ((start labels).observeAll rows).bind means = .ok summary) :
    (∀ row ∈ rows, row.ratios.length = labels.length) ∧ summary.map (·.label) = labels ∧
      ∀ i c, summary[i]? = some c →
        c.count = ((column rows i).filterMap Ratio.value?).length ∧
        c.mean = ((column rows i).filterMap Ratio.value?).foldl (· + ·) 0.0 /
          Float.ofNat c.count := by
  have hwidth : ∀ row ∈ rows, row.ratios.length = labels.length := by
    rcases rows_cases labels.length rows with hall | ⟨good, row, rest, rfl, hgood, hrow⟩
    · exact hall
    · rw [observeAll_refused (length_start labels) hgood hrow rest] at h
      cases h
  obtain ⟨t, hok, hlength, hcolumns⟩ := columns_of_rows hwidth
  rw [hok] at h
  have hsummary : summary =
      t.columns.map fun c => ⟨c.label, c.sum / Float.ofNat c.count, c.count⟩ := by
    rcases means_cases t with ⟨-, hmeans⟩ | ⟨_, _, _, -, -, -, herr⟩
    · exact (Except.ok.inj (hmeans.symm.trans h)).symm
    · have := herr.symm.trans h
      cases this
  subst hsummary
  refine ⟨hwidth, ?_, fun i c hc => ?_⟩
  · apply List.ext_getElem (by simp [hlength])
    intro i hi hlabel
    have hcolumn := hcolumns i _ (List.getElem?_eq_getElem hlabel)
    obtain ⟨_, hget⟩ := List.getElem?_eq_some_iff.mp hcolumn
    simp [hget]
  · rw [List.getElem?_map, Option.map_eq_some_iff] at hc
    obtain ⟨total, htotal, rfl⟩ := hc
    obtain ⟨hi, -⟩ := List.getElem?_eq_some_iff.mp htotal
    have hlabel := List.getElem?_eq_getElem (l := labels) (i := i) (by omega)
    rw [hcolumns i _ hlabel, Option.some_inj] at htotal
    subst htotal
    exact ⟨rfl, rfl⟩

end Totals

end BenchRatio
