import BenchRatio.Proofs.Comparison.Independence
import BenchRatio.Proofs.Decimal.Exact

/-!
# The baseline in its own comparison

The first column of a ratio table belongs to the baseline and is made of ones, whatever was
measured. The baseline may also be one of the treatments. Then a measurement is divided by itself,
which is one if it is a finite number; a zero has no ratio there, and an infinity or what is no
number has none that is a number.

* `ofMeasurement_self`: a measurement compared with itself.
* `ratios_self`, `ratios_self_of_finite`: the column of the baseline among the treatments.
* `ofValues_ones`: the mean of a column of ones.
* `treatment_of_firstEmpty`: an empty column is that of a treatment.
* `write_baseline_mean`: **the baseline's own mean is one**.
* `write_baseline_as_treatment`: **the baseline as a treatment** has the mean one, too, if it has
  measured finite numbers only.
-/

namespace BenchRatio

open Measurements

/-! ## A measurement and itself -/

/-- A measurement compared with itself: a zero is a failed run, what is no finite number has no
ratio that is a number, and everything else has the ratio one. -/
theorem Ratio.ofMeasurement_self (x : Float) :
    let ratio := ofMeasurement x (some x)
    (ratio = .undefined ↔ x = 0.0 ∨ x = -0.0) ∧
      ((∃ v, ratio = .defined v ∧ v.isNaN) ↔ x.isInf ∨ x.isNaN) ∧
      ((∃ v, ratio = .defined v ∧ v.toBits = (1.0 : Float).toBits) ↔
        (x ≠ 0.0 ∧ x ≠ -0.0) ∧ ¬ (x.isInf ∨ x.isNaN)) := by
  intro ratio
  rw [← Binary64.isFinite_eq_false_iff]
  by_cases hzero : x = 0.0 ∨ x = -0.0
  · have hratio : ratio = .undefined := by
      simp only [ratio, ofMeasurement, bne, (Binary64.beq_zero_iff x).mpr hzero]
      rfl
    have hfinite : x.isFinite := by rcases hzero with rfl | rfl <;> rfl
    rw [hratio, hfinite]
    simpa using And.intro hzero hzero.resolve_left
  · have hne := not_or.mp hzero
    have hratio : ratio = .defined (x / x) := by
      simp only [ratio, ofMeasurement, bne,
        Bool.eq_false_iff.mpr fun h => hzero ((Binary64.beq_zero_iff x).mp h)]
      rfl
    rw [hratio]
    cases hfinite : x.isFinite with
    | false =>
      have hnan := Binary64.isNaN_div_self hfinite
      have hone : (x / x).toBits ≠ (1.0 : Float).toBits := by
        intro h
        rw [Float.toBits_inj.mp h] at hnan
        cases hnan
      simpa [hone, hne.1, hne.2] using hnan
    | true =>
      have hnan : (1.0 : Float).isNaN = false := rfl
      rw [Binary64.div_self_of_isFinite hfinite hne]
      simpa [hne.1, hne.2] using hnan

namespace Measurements

/-- The entries that are no failed runs. -/
def nonzero (m : Measurements) : List (String × Float) :=
  m.entries.filter fun e => e.2 ≠ 0.0 ∧ e.2 ≠ -0.0

theorem ratios_self (m : Measurements) : ratios m m = m.nonzero.map fun e => e.2 / e.2 := by
  have hmem : ∀ e ∈ m.entries, m.get? e.1 = some e.2 := fun e he =>
    (SortedMap.get?_eq_some_iff_mem m e.1 e.2).mpr he
  rw [ratios, nonzero, ← List.filterMap_eq_map, List.filterMap_filter]
  refine List.filterMap_congr fun e he => ?_
  rw [measurement?, hmem e he, Option.filter_some]
  split <;> simp_all

theorem ratios_self_of_finite {m : Measurements} (h : ∀ e ∈ m.entries, e.2.isFinite) :
    ratios m m = List.replicate m.nonzero.length 1.0 := by
  rw [ratios_self, List.map_eq_replicate_iff]
  intro e he
  obtain ⟨hmem, hne⟩ := List.mem_filter.mp he
  exact Binary64.div_self_of_isFinite (h e hmem) (by simpa using hne)

theorem length_nonzero_le (m : Measurements) : m.nonzero.length ≤ m.size :=
  List.length_filter_le _ _

end Measurements

/-! ## Columns of ones -/

/-- The mean of a column of ones, as long as they can be counted. -/
theorem ColumnMean.ofValues_ones (label : String) {n : Nat} (hpos : 0 < n) (hn : n ≤ 2 ^ 53) :
    ofValues label (List.replicate n 1.0) = ⟨label, 1.0, n⟩ := by
  rw [ofValues, List.length_replicate, Binary64.mean_ones hpos hn]

theorem ColumnTotal.mean_ofValues (label : String) {values : List Float} (h : values ≠ []) :
    (ofValues label values).mean = .ok (.ofValues label values) :=
  if_neg (mt List.eq_nil_of_length_eq_zero h)

namespace Table

section

variable (baseline : Measurements) {treatments : List Measurements}

theorem ratios_eq_nil_iff (t : Measurements) :
    ratios baseline t = [] ↔ measured baseline t = [] := by
  rw [← List.length_eq_zero_iff, length_ratios, List.length_eq_zero_iff]

/-- The first empty column is that of the first treatment that has measured nothing, if the baseline
has a benchmark. -/
theorem treatment_of_firstEmpty (hkeys : baseline.keys ≠ []) {i : Nat}
    (hi : (columnValues baseline treatments)[i]? = some [])
    (hbefore : ∀ (j : Nat) (values : List Float), j < i →
      (columnValues baseline treatments)[j]? = some values → values ≠ []) :
    ∃ k t, i = k + 1 ∧ treatments[k]? = some t ∧ measured baseline t = [] ∧
      ∀ j u, j < k → treatments[j]? = some u → measured baseline u ≠ [] := by
  cases i with
  | zero => exact absurd ((firstEmpty_ratioTable baseline hi hbefore).mp rfl) hkeys
  | succ k =>
    rw [getElem?_columnValues_succ, Option.map_eq_some_iff] at hi
    obtain ⟨t, ht, hratios⟩ := hi
    refine ⟨k, t, rfl, ht, (ratios_eq_nil_iff baseline t).mp hratios, fun j u hj hu => ?_⟩
    have hcolumn := hbefore (j + 1) (ratios baseline u) (Nat.succ_lt_succ hj)
      (by rw [getElem?_columnValues_succ, hu, Option.map_some])
    exact mt (ratios_eq_nil_iff baseline u).mpr hcolumn

end

/-- **The baseline's own mean is one.** Let a baseline have a benchmark and not more than `2 ^ 53`
of them, whatever was measured. Wherever its table is written to, a summary starts with the mean of
the baseline, which has the first label, the bits of one and all benchmarks for its count. A column
that is reported as empty is that of a treatment, the first one that has measured nothing. -/
theorem write_baseline_mean (baseline : Measurements) {treatments : List Measurements}
    {labels : List String} (hlabels : labels.length = treatments.length + 1)
    (hkeys : baseline.keys ≠ []) (hsize : baseline.size ≤ 2 ^ 53) (o : Outlet) :
    let result := (write o labels (ratioTable baseline treatments).result).2
    (∀ summary, result = .ok summary → ∃ m, summary.head? = some m ∧
      labels.head? = some m.label ∧ m.mean.toBits = (1.0 : Float).toBits ∧
      m.count = baseline.size) ∧
    ∀ label, result = .error (.emptyColumn label) → ∃ i t, treatments[i]? = some t ∧
      labels[i + 1]? = some label ∧ measured baseline t = [] ∧
      ∀ j u, j < i → treatments[j]? = some u → measured baseline u ≠ [] := by
  intro result
  have hpos : 0 < baseline.size :=
    Nat.pos_of_ne_zero (mt (SortedMap.size_eq_zero_iff baseline).mp hkeys)
  have hresult := result_of_write o labels (ratioTable baseline treatments).result
  rcases hresult with hresult | ⟨cause, hfail⟩
  · refine ⟨fun summary hok => ?_, fun label herr => ?_⟩
    · obtain ⟨first, hfirst⟩ : ∃ first, labels[0]? = some first :=
        ⟨labels[0], List.getElem?_eq_getElem (by omega)⟩
      have hm := Totals.getElem?_summary (hresult.symm.trans hok) hfirst
      rw [values_column_zero, ColumnMean.ofValues_ones first hpos hsize] at hm
      rw [List.head?_eq_getElem?, List.head?_eq_getElem?]
      exact ⟨_, hm, hfirst, rfl, rfl⟩
    · rcases means_ratioTable baseline hlabels with
        ⟨-, hok⟩ | ⟨i, first, hi, hbefore, hlabel, hempty⟩
      · have := hok.symm.trans (hresult.symm.trans herr)
        cases this
      · have hsame := hempty.symm.trans (hresult.symm.trans herr)
        obtain rfl : first = label := by simpa using hsame
        obtain ⟨k, t, rfl, ht, hmeasured, hearlier⟩ :=
          treatment_of_firstEmpty baseline hkeys hi hbefore
        exact ⟨k, t, ht, hlabel, hmeasured, hearlier⟩
  · -- The device has failed: there are neither means nor an empty column.
    rcases hfail with hfail | hfail
    · simp [result, hfail]
    · simp [result, hfail]

/-- Zeros, infinities and what is no number in the baseline leave its mean alone. -/
theorem write_baseline_mean_failed_runs :
    let baseline : Measurements :=
      SortedMap.ofList [("a", -0.0), ("b", -1.5), ("c", 1.0 / 0.0), ("d", 0.0 / 0.0)]
    let treatment : Measurements := SortedMap.ofList [("a", 2.0), ("d", 1.0)]
    ∃ summary m, (write (.direct .unlimited) ["base", "other"]
        (ratioTable baseline [treatment]).result).2 = .ok summary ∧ summary.head? = some m ∧
      m.label = "base" ∧ m.mean.toBits = (1.0 : Float).toBits ∧ m.count = 4 := by
  intro baseline treatment
  obtain ⟨hsummary, hempty⟩ := @write_baseline_mean baseline [treatment] ["base", "other"] rfl
    (by decide +kernel) (by decide +kernel) (.direct .unlimited)
  have hresult := (write_unlimited ["base", "other"] (ratioTable baseline [treatment]).result).2
  rcases @means_ratioTable baseline [treatment] ["base", "other"] rfl with
    ⟨-, hok⟩ | ⟨_, label, -, -, -, herr⟩
  · obtain ⟨m, hm, hlabel, hmean, hcount⟩ := hsummary _ (hresult.trans hok)
    have hsize : baseline.size = 4 := by decide +kernel
    exact ⟨_, m, hresult.trans hok, hm, (Option.some.inj hlabel).symm, hmean, hcount.trans hsize⟩
  · obtain ⟨i, t, ht, -, hmeasured, -⟩ := hempty label (hresult.trans herr)
    have hne : ∀ u ∈ [treatment], measured baseline u ≠ [] := by decide +kernel
    exact absurd hmeasured (hne t (List.mem_of_getElem? ht))

/-- **The baseline as a treatment.** In a column whose treatment is the baseline itself, a zero of
either sign has no ratio, an infinity or what is no number one that is no number, and everything
else, however small or large, has the ratio with the bits of one. The column's count is the number
of measurements that are not zero. If there is one, all measurements are finite and there are not
more than `2 ^ 53`, then the column's mean has the bits of one, and so has the mean in a summary,
wherever the table is written to. -/
theorem write_baseline_as_treatment {baseline : Measurements} {treatments : List Measurements}
    {i : Nat} (hi : treatments[i]? = some baseline) :
    let rows := (ratioTable baseline treatments).result
    let ones := baseline.size ≤ 2 ^ 53 ∧ baseline.nonzero ≠ [] ∧
      ∀ e ∈ baseline.entries, e.2.isFinite
    rows.map (·.benchmark) = baseline.keys ∧
    (∀ row ∈ rows, ∃ x ratio, baseline.get? row.benchmark = some x ∧
      row.ratios[i + 1]? = some ratio ∧
      (ratio = .undefined ↔ x = 0.0 ∨ x = -0.0) ∧
      ((∃ v, ratio = .defined v ∧ v.isNaN) ↔ x.isInf ∨ x.isNaN) ∧
      ((∃ v, ratio = .defined v ∧ v.toBits = (1.0 : Float).toBits) ↔
        (x ≠ 0.0 ∧ x ≠ -0.0) ∧ ¬ (x.isInf ∨ x.isNaN))) ∧
    ∀ labels : List String, labels.length = treatments.length + 1 →
      (∃ totals column, (Totals.start labels).observeAll rows = .ok totals ∧
        totals.columns[i + 1]? = some column ∧ column.count = baseline.nonzero.length ∧
        (ones → ∃ m, column.mean = .ok m ∧ m.mean.toBits = (1.0 : Float).toBits)) ∧
      ∀ o summary, (write o labels rows).2 = .ok summary →
        ∃ m, summary[i + 1]? = some m ∧ m.count = baseline.nonzero.length ∧
          (ones → m.mean.toBits = (1.0 : Float).toBits) := by
  intro rows ones
  have hcount : (ratios baseline baseline).length = baseline.nonzero.length := by
    rw [ratios_self, List.length_map]
  have hones : ones → ∀ label, ColumnMean.ofValues label (ratios baseline baseline) =
      ⟨label, 1.0, baseline.nonzero.length⟩ := by
    rintro ⟨hsize, hne, hfinite⟩ label
    rw [ratios_self_of_finite hfinite]
    exact ColumnMean.ofValues_ones label (List.length_pos_iff.mpr hne)
      (baseline.length_nonzero_le.trans hsize)
  refine ⟨benchmarks_ratioTable baseline treatments, fun row hrow => ?_, fun labels hlabels => ?_⟩
  · obtain ⟨e, he, rfl⟩ := List.mem_map.mp hrow
    have hget := (SortedMap.get?_eq_some_iff_mem baseline e.1 e.2).mpr he
    refine ⟨e.2, .ofMeasurement e.2 (some e.2), hget, ?_, Ratio.ofMeasurement_self e.2⟩
    simp [ratioRow, hi, hget]
  · have hcolumn :
        (columnValues baseline treatments)[i + 1]? = some (ratios baseline baseline) := by
      rw [getElem?_columnValues_succ, hi, Option.map_some]
    have hlength := (length_columnValues baseline treatments).trans hlabels.symm
    obtain ⟨label, hlabel, htotal⟩ := exists_zipWith hlength ColumnTotal.ofValues hcolumn
    refine ⟨⟨_, _, totals_ratioTable baseline hlabels, htotal, hcount, fun h => ?_⟩,
      fun o summary hok => ?_⟩
    · have hne : ratios baseline baseline ≠ [] := by
        rw [← List.length_pos_iff, hcount]
        exact List.length_pos_iff.mpr h.2.1
      exact ⟨_, ColumnTotal.mean_ofValues label hne, by rw [hones h]⟩
    · have hm := Totals.getElem?_summary (means_of_write hok) hlabel
      rw [values_column_succ baseline hi] at hm
      exact ⟨_, hm, hcount, fun h => by rw [hones h]⟩

/-- The least positive measurement, one of the largest size and a failed run. -/
theorem write_baseline_as_treatment_extremes :
    let baseline : Measurements :=
      SortedMap.ofList [("least", 5e-324), ("most", -1.7976931348623157e308), ("failed", -0.0)]
    ∃ totals column m,
      (Totals.start ["base", "again"]).observeAll (ratioTable baseline [baseline]).result =
        .ok totals ∧ totals.columns[1]? = some column ∧ column.count = 2 ∧
      column.mean = .ok m ∧ m.mean.toBits = (1.0 : Float).toBits := by
  intro baseline
  obtain ⟨-, -, hlabels⟩ := @write_baseline_as_treatment baseline [baseline] 0 rfl
  obtain ⟨⟨totals, column, hok, hcolumn, hcount, hones⟩, -⟩ := hlabels ["base", "again"] rfl
  obtain ⟨m, hm, hmean⟩ :=
    hones ⟨by decide +kernel, by decide +kernel, List.all_eq_true.mp (by decide +kernel)⟩
  have htwo : baseline.nonzero.length = 2 := by decide +kernel
  exact ⟨totals, column, m, hok, hcolumn, hcount.trans htwo, hm, hmean⟩

end Table

end BenchRatio
