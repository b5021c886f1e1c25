import BenchRatio.Proofs.Comparison.Rows
import BenchRatio.Proofs.Decimal.Overflow
import BenchRatio.Proofs.Measurements.Reading
import BenchRatio.Proofs.Output.Cells

/-!
# Results that are not finite

A ratio that is not finite has one of three causes: a zero in the baseline, of which there is a
notice; a measurement that is not finite itself; or a quotient that is too large. A mean that is not
finite comes from such a ratio or from a sum that is too large, even where the mean of the exact
ratios would not be. Nothing else leads to one.

* `QuotientFits`, `SumFits`: when a quotient and a sum are finite, in exact numbers.
* `Totals.count_pos_of_means`: nothing is averaged over no rows.
* `write_finite`: **when ratios and means are finite**.
* `infinite_mean_of_finite_ratios`: finite measurements and ratios with a mean that is not finite.
-/

namespace BenchRatio

open Measurements Binary64

/-- The quotient of two measurements is a finite one: the first is finite, the second is a number
and no zero, and if it is finite then the exact quotient is below the bound. -/
def QuotientFits (value base : Float) : Prop :=
  value.isFinite = true ∧ base.isNaN = false ∧ (base ≠ 0.0 ∧ base ≠ -0.0) ∧
    (base.isFinite = true → |toRat value / toRat base| < overflowBound)

/-- Measurements that are added one after the other stay finite: each one is finite, and added
exactly to the sum of those before it, it stays below the bound. -/
def SumFits (values : List Float) : Prop :=
  ∀ k x, values[k]? = some x →
    x.isFinite = true ∧ |toRat (partialSum values k) + toRat x| < overflowBound

theorem Totals.count_pos_of_means {t : Totals} {summary : Summary} (h : t.means = .ok summary) :
    ∀ m ∈ summary, 0 < m.count := by
  rcases t.means_cases with ⟨hcounts, hok⟩ | ⟨_, _, _, -, -, -, herr⟩
  · obtain rfl := Except.ok.inj (hok.symm.trans h)
    intro m hm
    obtain ⟨c, hc, rfl⟩ := List.mem_map.mp hm
    exact Nat.pos_of_ne_zero (hcounts c hc)
  · have := herr.symm.trans h
    cases this

theorem notices_eq_nil_iff (baseline : Measurements) (treatments : List Measurements) :
    (ratioTable baseline treatments).notices = [] ↔
      ∀ e ∈ baseline.entries, e.2 ≠ 0.0 ∧ e.2 ≠ -0.0 := by
  rw [ratioTable, List.flatMap_eq_nil_iff]
  refine forall₂_congr fun e _ => ?_
  rw [← not_or, ← beq_zero_iff, zeroNotices]
  split
  · next h => exact ⟨fun hnil => absurd hnil (List.cons_ne_nil _ _), fun hne => absurd h hne⟩
  · next h => exact ⟨fun _ => h, fun _ => rfl⟩

/-- A ratio is finite exactly if the quotient of its measurements fits. -/
theorem isFinite_ofMeasurement {base ratio : Float} {value? : Option Float}
    (h : Ratio.ofMeasurement base value? = .defined ratio) :
    ∃ value, value? = some value ∧ (ratio.isFinite = true ↔ QuotientFits value base) := by
  cases value? with
  | none => cases h
  | some value =>
    rw [Ratio.ofMeasurement] at h
    split at h
    · obtain rfl := Ratio.defined.inj h
      exact ⟨value, rfl, isFinite_div_iff value base⟩
    · cases h

theorem Measurements.read_eq_of_entries {d : Dialect} {origin : String} {s : Stream}
    {pairs : List (String × Float)}
    (h : (read d origin s).result.toOption.map (·.entries) =
      some (SortedMap.ofList pairs).entries) :
    (read d origin s).result = .ok (SortedMap.ofList pairs) := by
  cases hread : (read d origin s).result with
  | error problem => simp [hread, Except.toOption] at h
  | ok m =>
    have hentries : m.entries = (SortedMap.ofList pairs).entries := by
      simpa [hread, Except.toOption] using h
    obtain ⟨entries, ascending⟩ := m
    subst hentries
    rfl

namespace Table

/-- **When results are finite.** A table has no notice exactly if the baseline has no zero. A ratio
is finite exactly if the treatment's measurement is, the baseline's is a number and no zero, and the
exact quotient is below the bound where the latter is finite. In a summary, wherever the table is
written to, a mean is finite exactly if all ratios of its column are and none of the sums on the
way, added exactly, reaches the bound. -/
theorem write_finite (baseline : Measurements) (treatments : List Measurements) :
    let table := ratioTable baseline treatments
    (table.notices = [] ↔ ∀ e ∈ baseline.entries, e.2 ≠ 0.0 ∧ e.2 ≠ -0.0) ∧
    (∀ row ∈ table.result, ∃ base, baseline.get? row.benchmark = some base ∧
      row.ratios.head? = some (.defined 1.0) ∧
      ∀ i t ratio, treatments[i]? = some t → row.ratios[i + 1]? = some (.defined ratio) →
        ∃ value, t.get? row.benchmark = some value ∧
          (ratio.isFinite = true ↔ QuotientFits value base)) ∧
    ∀ o labels summary, (write o labels table.result).2 = .ok summary →
      ∀ i m, summary[i]? = some m →
        (m.mean.isFinite = true ↔ SumFits ((column table.result i).filterMap Ratio.value?)) := by
  intro table
  refine ⟨notices_eq_nil_iff baseline treatments, fun row hrow => ?_,
    fun o labels summary hok => ?_⟩
  · obtain ⟨e, he, rfl⟩ := List.mem_map.mp hrow
    refine ⟨e.2, (SortedMap.get?_eq_some_iff_mem baseline e.1 e.2).mpr he, rfl,
      fun i t ratio ht hratio => ?_⟩
    have hdefined : Ratio.ofMeasurement e.2 (t.get? e.1) = .defined ratio := by
      simpa [ratioRow, ht] using hratio
    exact isFinite_ofMeasurement hdefined
  · intro i m hm
    have hmeans := means_of_write hok
    obtain ⟨-, -, hcolumns⟩ := Totals.summary_of_rows hmeans
    obtain ⟨-, hmean⟩ := hcolumns i m hm
    have hpos : 0 < m.count := by
      cases htotals : (Totals.start labels).observeAll table.result with
      | error problem => rw [htotals] at hmeans; cases hmeans
      | ok totals =>
        rw [htotals] at hmeans
        exact Totals.count_pos_of_means hmeans m (List.mem_of_getElem? hm)
    rw [hmean, isFinite_div_ofNat_iff _ hpos]
    exact isFinite_sum_iff _

/-- Two files with finite measurements and no zero, read without a notice: all ratios of their table
are finite, and so is the mean `1e308` of the exact ratios, but the sum is too large, and with it
the mean is not finite. -/
theorem infinite_mean_of_finite_ratios :
    ∃ baseline treatment summary,
      (Measurements.read .results "baseline" { bytes := Utf8.encode "n,v\na,1\nb,1\n" }).result =
        .ok baseline ∧
      (Measurements.read .results "t1" { bytes := Utf8.encode "n,v\na,1e308\nb,1e308\n" }).result =
        .ok treatment ∧
      (ratioTable baseline [treatment]).notices = [] ∧
      (∀ row ∈ (ratioTable baseline [treatment]).result,
        ∀ value ∈ row.ratios.filterMap Ratio.value?, value.isFinite = true) ∧
      (write (.direct .unlimited) ["baseline", "t1"] (ratioTable baseline [treatment]).result).2 =
        .ok summary ∧
      ∃ m ∈ summary, m.label = "t1" ∧ m.mean.isFinite = false := by
  let baseline : Measurements := SortedMap.ofList [("a", 1.0), ("b", 1.0)]
  let treatment : Measurements := SortedMap.ofList [("a", 1e308), ("b", 1e308)]
  have hnotices : (ratioTable baseline [treatment]).notices = [] :=
    (notices_eq_nil_iff baseline [treatment]).mpr (by decide +kernel)
  have hratios : ∀ row ∈ (ratioTable baseline [treatment]).result,
      ∀ value ∈ row.ratios.filterMap Ratio.value?, value.isFinite = true := by
    decide +kernel
  have hmeans : ((write (.direct .unlimited) ["baseline", "t1"]
      (ratioTable baseline [treatment]).result).2.toOption.map fun summary =>
        summary.map fun m => (m.label, m.mean.isFinite)) =
      some [("baseline", true), ("t1", false)] := by
    decide +kernel
  cases hwrite : (write (.direct .unlimited) ["baseline", "t1"]
      (ratioTable baseline [treatment]).result).2 with
  | error problem => simp [hwrite, Except.toOption] at hmeans
  | ok summary =>
    refine ⟨baseline, treatment, summary, read_eq_of_entries (by decide +kernel),
      read_eq_of_entries (by decide +kernel), hnotices, hratios, hwrite, ?_⟩
    have hcolumns : summary.map (fun m => (m.label, m.mean.isFinite)) =
        [("baseline", true), ("t1", false)] := by
      simpa [hwrite, Except.toOption] using hmeans
    obtain ⟨m, hm, hpair⟩ := List.mem_map.mp
      (hcolumns ▸ List.mem_of_getElem? (i := 1) rfl :
        ("t1", false) ∈ summary.map fun m => (m.label, m.mean.isFinite))
    exact ⟨m, hm, (Prod.mk.inj hpair).1, (Prod.mk.inj hpair).2⟩

end Table

end BenchRatio
