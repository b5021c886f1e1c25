import BenchRatio.Proofs.Decimal.Bits
import BenchRatio.Proofs.SortedMap
import BenchRatio.Proofs.Summary
import BenchRatio.Proofs.Text.Utf8
import Mathlib.Data.List.Forall2

/-!
# The columns of a comparison

The first column of a ratio table has a one for each benchmark of the baseline. A treatment's column
has a ratio for each benchmark that the treatment has measured, where a measurement of zero, of
either sign, marks a failed run.

* `measurement?`, `measured`: the measurements of a treatment that count.
* `IsRatio`, `ratios`: the ratios of a treatment.
* `ofMeasurement_get?`: a ratio depends on such a measurement only.
* `column_zero`, `column_succ`: the columns of a ratio table.
* `ratios_measured`: **a treatment's ratios are those of the benchmarks it has measured**, in the
  order of the bytes of their names.
-/

namespace BenchRatio

namespace Measurements

/-- What a treatment has measured for a benchmark. Either zero marks a failed run and is like
nothing at all. -/
def measurement? (t : Measurements) (benchmark : String) : Option Float :=
  (t.get? benchmark).filter fun value => value ≠ 0.0 ∧ value ≠ -0.0

/-- The benchmarks of a baseline that a treatment has measured, in the baseline's order. -/
def measured (baseline t : Measurements) : List String :=
  baseline.keys.filter fun benchmark => (t.measurement? benchmark).isSome

/-- The ratios of a treatment's measurements to those of a baseline, in the baseline's order. -/
def ratios (baseline t : Measurements) : List Float :=
  baseline.entries.filterMap fun e => (t.measurement? e.1).map (· / e.2)

/-- The names of benchmarks ascend like their bytes. -/
theorem keys_ascending_bytes (m : Measurements) :
    m.keys.Pairwise fun a b => Utf8.encode a < Utf8.encode b :=
  m.keys_ascending.imp Utf8.encode_lt_encode

/-- A treatment's measurement of a benchmark divided by the baseline's. -/
def IsRatio (baseline t : Measurements) (benchmark : String) (ratio : Float) : Prop :=
  ∃ value base, t.measurement? benchmark = some value ∧ baseline.get? benchmark = some base ∧
    ratio = value / base

theorem isRatio_of_entries {baseline : Measurements} (t : Measurements)
    {entries : List (String × Float)} (h : ∀ e ∈ entries, e ∈ baseline.entries) :
    List.Forall₂ (IsRatio baseline t)
      ((entries.map (·.1)).filter fun benchmark => (t.measurement? benchmark).isSome)
      (entries.filterMap fun e => (t.measurement? e.1).map (· / e.2)) := by
  induction entries with
  | nil => exact .nil
  | cons e entries ih =>
    obtain ⟨he, hrest⟩ := List.forall_mem_cons.mp h
    rw [List.map_cons]
    cases hvalue : t.measurement? e.1 with
    | none =>
      rw [List.filter_cons_of_neg (by simp [hvalue]), List.filterMap_cons_none (by simp [hvalue])]
      exact ih hrest
    | some value =>
      rw [List.filter_cons_of_pos (by simp [hvalue]),
        List.filterMap_cons_some (by rw [hvalue]; rfl)]
      have hbase := (SortedMap.get?_eq_some_iff_mem baseline e.1 e.2).mpr he
      exact .cons ⟨value, e.2, hvalue, hbase, rfl⟩ (ih hrest)

/-- A treatment has a ratio for each benchmark that it has measured and for no other. -/
theorem ratios_measured (baseline t : Measurements) :
    List.Forall₂ (IsRatio baseline t) (measured baseline t) (ratios baseline t) :=
  isRatio_of_entries t fun _ he => he

theorem length_ratios (baseline t : Measurements) :
    (ratios baseline t).length = (measured baseline t).length :=
  (ratios_measured baseline t).length_eq.symm

end Measurements

open Measurements

/-- A ratio depends on what the treatment has measured only. -/
theorem Ratio.ofMeasurement_get? (base : Float) (t : Measurements) (benchmark : String) :
    ofMeasurement base (t.get? benchmark) =
      ((t.measurement? benchmark).map (· / base)).elim .undefined .defined := by
  unfold measurement?
  cases t.get? benchmark with
  | none => rfl
  | some value =>
    have hzero := Binary64.beq_zero_iff value
    by_cases h : value = 0.0 ∨ value = -0.0
    · have hfilter : (some value).filter (fun v => v ≠ 0.0 ∧ v ≠ -0.0) = none := by
        rw [Option.filter_some, if_neg (by simpa [imp_iff_not_or] using h)]
      rw [hfilter, ofMeasurement, bne, hzero.mpr h]
      rfl
    · have hfilter : (some value).filter (fun v => v ≠ 0.0 ∧ v ≠ -0.0) = some value := by
        rw [Option.filter_some, if_pos (by simpa [not_or] using h)]
      rw [hfilter, ofMeasurement, bne, Bool.eq_false_iff.mpr (fun hv => h (hzero.mp hv))]
      rfl

theorem value?_ofMeasurement_get? (base : Float) (t : Measurements) (benchmark : String) :
    (Ratio.ofMeasurement base (t.get? benchmark)).value? =
      (t.measurement? benchmark).map (· / base) := by
  rw [Ratio.ofMeasurement_get?]
  cases t.measurement? benchmark <;> rfl

/-! ## The columns -/

variable (baseline : Measurements) {treatments : List Measurements}

/-- The baseline's own column. -/
theorem column_zero (treatments : List Measurements) :
    column (ratioTable baseline treatments).result 0 =
      List.replicate baseline.size (.defined 1.0) := by
  rw [column, ratioTable, List.filterMap_map, SortedMap.size]
  induction baseline.entries with
  | nil => rfl
  | cons e entries ih => exact congrArg (_ :: ·) ih

/-- A treatment's column is made from the baseline and this treatment. -/
theorem column_succ {i : Nat} {t : Measurements} (h : treatments[i]? = some t) :
    column (ratioTable baseline treatments).result (i + 1) =
      baseline.entries.map fun e => .ofMeasurement e.2 (t.get? e.1) := by
  rw [column, ratioTable, List.filterMap_map, ← List.filterMap_eq_map]
  refine List.filterMap_congr fun e _ => ?_
  simp [ratioRow, h]

theorem values_column_zero (treatments : List Measurements) :
    (column (ratioTable baseline treatments).result 0).filterMap Ratio.value? =
      List.replicate baseline.size 1.0 := by
  rw [column_zero]
  induction baseline.size with
  | zero => rfl
  | succ n ih => rw [List.replicate_succ, List.filterMap_cons_some (by rfl), ih,
      List.replicate_succ]

theorem values_column_succ {i : Nat} {t : Measurements} (h : treatments[i]? = some t) :
    (column (ratioTable baseline treatments).result (i + 1)).filterMap Ratio.value? =
      ratios baseline t := by
  rw [column_succ baseline h, List.filterMap_map, ratios]
  exact List.filterMap_congr fun e _ => value?_ofMeasurement_get? e.2 t e.1

end BenchRatio
