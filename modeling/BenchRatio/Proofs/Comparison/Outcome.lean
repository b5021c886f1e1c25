import BenchRatio.Proofs.Comparison.Columns
import BenchRatio.Proofs.Output.Cells

/-!
# What writing a comparison leads to

The columns of a ratio table are a column of ones and one column for each treatment. A column's mean
is taken over its own ratios, so the outcome follows from the columns alone: a mean for each of
them, or the first one that is empty.

* `columnValues`: the defined ratios of all columns.
* `totals_ratioTable`: the totals of all rows.
* `means_ratioTable`: the means, or the first empty column.
* `summary_ratioTable`, `firstEmpty_ratioTable`: what either says about the measurements.
* `write_ratioTable`: **the outcome of writing a comparison**, in terms of what was measured.
-/

namespace BenchRatio

open Measurements

/-- The defined ratios of each column: ones for the baseline, then the ratios of each treatment. -/
def columnValues (baseline : Measurements) (treatments : List Measurements) : List (List Float) :=
  List.replicate baseline.size 1.0 :: treatments.map (ratios baseline)

/-- The total of a column with the given ratios. -/
def ColumnTotal.ofValues (label : String) (values : List Float) : ColumnTotal :=
  ⟨label, values.foldl (· + ·) 0.0, values.length⟩

/-- The mean of a column with the given ratios. -/
def ColumnMean.ofValues (label : String) (values : List Float) : ColumnMean :=
  ⟨label, values.foldl (· + ·) 0.0 / Float.ofNat values.length, values.length⟩

variable (baseline : Measurements) {treatments : List Measurements} {labels : List String}

theorem length_columnValues (treatments : List Measurements) :
    (columnValues baseline treatments).length = treatments.length + 1 := by
  simp [columnValues]

/-- The treatments' columns come after the baseline's. -/
theorem getElem?_columnValues_succ (i : Nat) :
    (columnValues baseline treatments)[i + 1]? = treatments[i]?.map (ratios baseline) := by
  rw [columnValues, List.getElem?_cons_succ, List.getElem?_map]

section OfValues

variable {columns : List (List Float)} (h : columns.length = labels.length)

include h

theorem label_ofValues :
    (List.zipWith ColumnMean.ofValues labels columns).map (·.label) = labels := by
  rw [← List.map_uncurry_zip_eq_zipWith, List.map_map]
  exact List.map_fst_zip (Nat.le_of_eq h.symm)

theorem count_ofValues : (List.zipWith ColumnMean.ofValues labels columns).map (·.count) =
    columns.map List.length := by
  calc (List.zipWith ColumnMean.ofValues labels columns).map (·.count)
      = ((labels.zip columns).map Prod.snd).map List.length := by
        rw [← List.map_uncurry_zip_eq_zipWith, List.map_map, List.map_map]
        rfl
    _ = columns.map List.length := by rw [List.map_snd_zip (Nat.le_of_eq h)]

/-- Each column has its label. -/
theorem exists_zipWith {α : Type} (f : String → List Float → α) {i : Nat} {values : List Float}
    (hi : columns[i]? = some values) :
    ∃ label, labels[i]? = some label ∧
      (List.zipWith f labels columns)[i]? = some (f label values) := by
  obtain ⟨hlt, -⟩ := List.getElem?_eq_some_iff.mp hi
  have hlabel := List.getElem?_eq_getElem (l := labels) (i := i) (by omega)
  exact ⟨_, hlabel, by rw [List.getElem?_zipWith, hlabel, hi]⟩

end OfValues

theorem values_column {i : Nat} {values : List Float}
    (h : (columnValues baseline treatments)[i]? = some values) :
    (column (ratioTable baseline treatments).result i).filterMap Ratio.value? = values := by
  cases i with
  | zero =>
    obtain rfl : List.replicate baseline.size 1.0 = values := Option.some.inj h
    exact values_column_zero baseline treatments
  | succ i =>
    rw [getElem?_columnValues_succ, Option.map_eq_some_iff] at h
    obtain ⟨t, ht, rfl⟩ := h
    exact values_column_succ baseline ht

theorem width_ratioTable (hlabels : labels.length = treatments.length + 1) :
    ∀ row ∈ (ratioTable baseline treatments).result, row.ratios.length = labels.length :=
  fun _ hrow => (length_ratios_of_mem_ratioTable hrow).trans hlabels.symm

/-- The totals of a ratio table, column by column. -/
theorem totals_ratioTable (hlabels : labels.length = treatments.length + 1) :
    (Totals.start labels).observeAll (ratioTable baseline treatments).result =
      .ok ⟨List.zipWith ColumnTotal.ofValues labels (columnValues baseline treatments)⟩ := by
  obtain ⟨⟨columns⟩, hok, hlength, hcolumns⟩ :=
    Totals.columns_of_rows (width_ratioTable baseline hlabels)
  rw [hok]
  congr 2
  apply List.ext_getElem?
  intro i
  rw [List.getElem?_zipWith]
  by_cases hi : i < labels.length
  · have hvalues := List.getElem?_eq_getElem (l := columnValues baseline treatments) (i := i)
      (by rw [length_columnValues]; omega)
    rw [hcolumns i _ (List.getElem?_eq_getElem hi), List.getElem?_eq_getElem hi, hvalues,
      values_column baseline hvalues]
    rfl
  · rw [List.getElem?_eq_none (by simp only [] at hlength; omega),
      List.getElem?_eq_none (l := labels) (by omega)]

/-- The means of columns with the given ratios, or the first empty one. -/
theorem means_ofValues {columns : List (List Float)} (h : columns.length = labels.length) :
    let outcome := Totals.means ⟨List.zipWith ColumnTotal.ofValues labels columns⟩
    ((∀ values ∈ columns, values ≠ []) ∧
      outcome = .ok (List.zipWith ColumnMean.ofValues labels columns)) ∨
    ∃ i label, columns[i]? = some [] ∧
      (∀ (j : Nat) (values : List Float), j < i → columns[j]? = some values → values ≠ []) ∧
      labels[i]? = some label ∧ outcome = .error (.emptyColumn label) := by
  rcases Totals.means_cases ⟨List.zipWith ColumnTotal.ofValues labels columns⟩ with
    ⟨hcounts, hok⟩ | ⟨before, c, after, hsplit, hbefore, hc, herr⟩
  · refine .inl ⟨fun values hvalues hempty => ?_, ?_⟩
    · obtain ⟨i, hi⟩ := List.mem_iff_getElem?.mp hvalues
      obtain ⟨label, -, htotals⟩ := exists_zipWith h ColumnTotal.ofValues hi
      exact hcounts _ (List.mem_of_getElem? htotals) (congrArg List.length hempty)
    · rw [hok, List.map_zipWith]
      rfl
  · simp only [] at hsplit
    have hlength : before.length < columns.length := by
      have := congrArg List.length hsplit
      rw [List.length_zipWith, List.length_append, List.length_cons] at this
      omega
    obtain ⟨label, hlabel, htotals⟩ :=
      exists_zipWith h ColumnTotal.ofValues (List.getElem?_eq_getElem hlength)
    rw [hsplit, List.getElem?_append_right (Nat.le_refl _), Nat.sub_self, List.getElem?_cons_zero,
      Option.some_inj] at htotals
    subst htotals
    refine .inr ⟨before.length, label, ?_, fun j values hj hvalues hempty => ?_, hlabel, herr⟩
    · rw [List.getElem?_eq_getElem hlength, List.eq_nil_of_length_eq_zero hc]
    · obtain ⟨_, -, hother⟩ := exists_zipWith h ColumnTotal.ofValues hvalues
      rw [hsplit, List.getElem?_append_left hj] at hother
      exact hbefore _ (List.mem_of_getElem? hother) (congrArg List.length hempty)

/-- The means of a ratio table, or its first empty column. -/
theorem means_ratioTable (hlabels : labels.length = treatments.length + 1) :
    let outcome :=
      ((Totals.start labels).observeAll (ratioTable baseline treatments).result).bind Totals.means
    ((∀ values ∈ columnValues baseline treatments, values ≠ []) ∧
      outcome = .ok (List.zipWith ColumnMean.ofValues labels (columnValues baseline treatments))) ∨
    ∃ i label, (columnValues baseline treatments)[i]? = some [] ∧
      (∀ (j : Nat) (values : List Float), j < i →
        (columnValues baseline treatments)[j]? = some values → values ≠ []) ∧
      labels[i]? = some label ∧ outcome = .error (.emptyColumn label) := by
  rw [totals_ratioTable baseline hlabels]
  exact means_ofValues ((length_columnValues baseline treatments).trans hlabels.symm)

/-! ## Writing -/

namespace Table

/-- The benchmarks with a ratio in each column: all of the baseline's, and those that each treatment
has measured. -/
def counts (baseline : Measurements) (treatments : List Measurements) : List Nat :=
  baseline.size :: treatments.map fun t => (measured baseline t).length

theorem map_length_columnValues (treatments : List Measurements) :
    (columnValues baseline treatments).map List.length = counts baseline treatments := by
  simp [columnValues, counts, length_ratios, Function.comp_def]

/-- A column's count is the number of its ratios. -/
theorem getElem?_counts_iff {i count : Nat} :
    (counts baseline treatments)[i]? = some count ↔
      ∃ values, (columnValues baseline treatments)[i]? = some values ∧ values.length = count := by
  rw [← map_length_columnValues, List.getElem?_map, Option.map_eq_some_iff]

theorem counts_pos_iff :
    (∀ count ∈ counts baseline treatments, 0 < count) ↔
      ∀ values ∈ columnValues baseline treatments, values ≠ [] := by
  rw [← map_length_columnValues, List.forall_mem_map]
  simp only [List.length_pos_iff]

/-- The summary of a ratio table without an empty column. -/
theorem summary_ratioTable (hlabels : labels.length = treatments.length + 1) :
    let summary := List.zipWith ColumnMean.ofValues labels (columnValues baseline treatments)
    summary.map (·.label) = labels ∧ summary.map (·.count) = counts baseline treatments ∧
      (∃ m, summary[0]? = some m ∧ m.mean =
        (List.replicate baseline.size 1.0).foldl (· + ·) 0.0 / Float.ofNat baseline.size) ∧
      ∀ i t, treatments[i]? = some t → ∃ m, summary[i + 1]? = some m ∧ m.mean =
        (ratios baseline t).foldl (· + ·) 0.0 / Float.ofNat (measured baseline t).length := by
  have hlength : (columnValues baseline treatments).length = labels.length :=
    (length_columnValues baseline treatments).trans hlabels.symm
  refine ⟨label_ofValues hlength,
    (count_ofValues hlength).trans (map_length_columnValues baseline treatments), ?_, ?_⟩
  · obtain ⟨label, -, hm⟩ := exists_zipWith hlength ColumnMean.ofValues (i := 0) rfl
    exact ⟨_, hm, by rw [ColumnMean.ofValues, List.length_replicate]⟩
  · intro i t ht
    have hi : (columnValues baseline treatments)[i + 1]? = some (ratios baseline t) := by
      rw [getElem?_columnValues_succ, ht, Option.map_some]
    obtain ⟨label, -, hm⟩ := exists_zipWith hlength ColumnMean.ofValues hi
    exact ⟨_, hm, by rw [ColumnMean.ofValues, length_ratios]⟩

/-- The first empty column of a ratio table is the baseline's if and only if that has no
benchmark. -/
theorem firstEmpty_ratioTable {i : Nat} (hi : (columnValues baseline treatments)[i]? = some [])
    (hbefore : ∀ (j : Nat) (values : List Float), j < i →
      (columnValues baseline treatments)[j]? = some values → values ≠ []) :
    i = 0 ↔ baseline.keys = [] := by
  have hsize := SortedMap.size_eq_zero_iff baseline
  constructor
  · rintro rfl
    apply hsize.mp
    simpa using congrArg List.length (Option.some.inj hi)
  · intro hkeys
    by_contra hne
    apply hbefore 0 _ (Nat.pos_of_ne_zero hne) rfl
    rw [hsize.mpr hkeys, List.replicate_zero]

theorem text_ratioTable (hlabels : labels.length = treatments.length + 1) :
    text labels (ratioTable baseline treatments).result =
      (header labels :: (ratioTable baseline treatments).result.map record).flatMap
        (Record.encode .table) := by
  have hgood := goodRows_eq (width_ratioTable baseline hlabels)
  rw [text_eq, hgood, List.flatMap_cons, List.flatMap_map]

/-- **The outcome of a comparison.** Let an output have room for the table. Then it receives the
whole table, which spells the header and all rows. If the baseline has a benchmark and each
treatment has measured one of them, there is a mean for each label: the baseline's is that of ones,
and a treatment's that of its ratios for the benchmarks it has measured, added from zero in the
order of the bytes of their names. Otherwise the first column without a ratio is reported, which is
the baseline's if that has no benchmark. -/
theorem write_ratioTable (hlabels : labels.length = treatments.length + 1) {o : Outlet}
    (ho : o.contents = [])
    (hroom : o.device.HasRoom (text labels (ratioTable baseline treatments).result).length) :
    let rows := (ratioTable baseline treatments).result
    let device := (write o labels rows).1
    let outcome := (write o labels rows).2
    Spells labels rows device.received.toList ∧
      device.received.toList =
        (header labels :: rows.map record).flatMap (Record.encode .table) ∧
      (((∀ count ∈ counts baseline treatments, 0 < count) ∧ ∃ summary, outcome = .ok summary ∧
          summary.map (·.label) = labels ∧ summary.map (·.count) = counts baseline treatments ∧
          (∃ m, summary[0]? = some m ∧ m.mean =
            (List.replicate baseline.size 1.0).foldl (· + ·) 0.0 / Float.ofNat baseline.size) ∧
          ∀ i t, treatments[i]? = some t → ∃ m ratios, summary[i + 1]? = some m ∧
            (measured baseline t).Pairwise (fun a b => Utf8.encode a < Utf8.encode b) ∧
            List.Forall₂ (IsRatio baseline t) (measured baseline t) ratios ∧
            m.mean = ratios.foldl (· + ·) 0.0 / Float.ofNat (measured baseline t).length) ∨
        ∃ i label, (counts baseline treatments)[i]? = some 0 ∧
          (∀ j count, j < i → (counts baseline treatments)[j]? = some count → 0 < count) ∧
          (i = 0 ↔ baseline.keys = []) ∧ labels[i]? = some label ∧
          outcome = .error (.emptyColumn label)) := by
  intro rows device outcome
  obtain ⟨-, ⟨hresult, hreceived⟩ | ⟨hfull, -⟩⟩ := write_cases ho labels rows
  swap
  · exact absurd hroom hfull
  have htext := (hreceived hroom).trans (text_ratioTable baseline hlabels)
  refine ⟨htext ▸ spells_encode labels rows, htext, ?_⟩
  rcases means_ratioTable baseline hlabels with ⟨hall, hok⟩ | ⟨i, label, hi, hbefore, hlabel, herr⟩
  · left
    obtain ⟨hsame, hcounts, hfirst, hmeans⟩ := summary_ratioTable baseline hlabels
    refine ⟨(counts_pos_iff baseline).mpr hall, _, hresult.trans hok, hsame, hcounts, hfirst, ?_⟩
    intro i t ht
    obtain ⟨m, hm, hmean⟩ := hmeans i t ht
    exact ⟨m, ratios baseline t, hm, baseline.keys_ascending_bytes.filter _,
      ratios_measured baseline t, hmean⟩
  · right
    refine ⟨i, label, (getElem?_counts_iff baseline).mpr ⟨[], hi, rfl⟩, ?_,
      firstEmpty_ratioTable baseline hi hbefore, hlabel, hresult.trans herr⟩
    intro j count hj hcount
    obtain ⟨values, hvalues, rfl⟩ := (getElem?_counts_iff baseline).mp hcount
    exact List.length_pos_iff.mpr (hbefore j values hj hvalues)

/-- A treatment that has measured two of three benchmarks, and one whose runs have all failed. -/
theorem write_ratioTable_failed_runs :
    let baseline : Measurements := SortedMap.ofList [("b", 2.0), ("é", 1.0), ("a", 4.0)]
    let partly : Measurements := SortedMap.ofList [("é", 0.5), ("a", -0.0), ("b", 3.0), ("z", 1.0)]
    let failed : Measurements := SortedMap.ofList [("a", 0.0), ("b", -0.0), ("z", 1.0)]
    (∃ summary, (write (.direct .unlimited) ["base", "partly"]
        (ratioTable baseline [partly]).result).2 = .ok summary ∧
      summary.map (·.label) = ["base", "partly"] ∧ summary.map (·.count) = [3, 2]) ∧
    (write (.direct .unlimited) ["base", "partly", "failed"]
      (ratioTable baseline [partly, failed]).result).2 = .error (.emptyColumn "failed") := by
  intro baseline partly failed
  have hpartly : counts baseline [partly] = [3, 2] := by decide +kernel
  have hfailed : counts baseline [partly, failed] = [3, 2, 0] := by decide +kernel
  constructor
  · obtain ⟨-, -, ⟨-, summary, hok, hlabels, hcounts, -⟩ | ⟨i, label, hi, -⟩⟩ :=
      @write_ratioTable baseline [partly] ["base", "partly"] rfl (.direct .unlimited) rfl
        (Device.hasRoom_unlimited _)
    · exact ⟨summary, hok, hlabels, hcounts.trans hpartly⟩
    · rw [hpartly] at hi
      have := List.mem_of_getElem? hi
      simp at this
  · obtain ⟨-, -, ⟨hpositive, -⟩ | ⟨i, label, hi, hbefore, -, hlabel, herr⟩⟩ :=
      @write_ratioTable baseline [partly, failed] ["base", "partly", "failed"] rfl
        (.direct .unlimited) rfl (Device.hasRoom_unlimited _)
    · rw [hfailed] at hpositive
      simp at hpositive
    · rw [hfailed] at hi
      match i, hi with
      | 2, _ =>
        obtain rfl := Option.some.inj hlabel
        exact herr

end Table

end BenchRatio
