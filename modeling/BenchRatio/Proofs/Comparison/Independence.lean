import BenchRatio.Proofs.Comparison.Outcome
import Mathlib.Logic.Equiv.Basic

/-!
# Treatments do not interfere

A treatment's column is made from the baseline and this treatment, and its mean from this column. So
neither depends on the other treatments, on what these miss or on where they stand.

* `getElem?_summary`: a mean is that of its own column.
* `SameMeasured`: two treatments have measured the same, as far as a baseline can tell.
* `ratioTable_congr`: such treatments are interchangeable.
* `rows_ofFn`, `means_ofFn`: the ratios and the means of reordered treatments.
* `treatments_independent`: **treatments do not interfere**.
-/

namespace BenchRatio

open Measurements

/-! ## One column -/

theorem Totals.getElem?_summary {labels : List String} {rows : List RatioRow} {summary : Summary}
    (h : ((start labels).observeAll rows).bind means = .ok summary) {i : Nat} {label : String}
    (hlabel : labels[i]? = some label) :
    summary[i]? = some (.ofValues label ((column rows i).filterMap Ratio.value?)) := by
  obtain ⟨-, hlabels, hmeans⟩ := summary_of_rows h
  rw [← hlabels, List.getElem?_map, Option.map_eq_some_iff] at hlabel
  obtain ⟨m, hm, rfl⟩ := hlabel
  obtain ⟨hcount, hmean⟩ := hmeans i m hm
  rw [hm, ColumnMean.ofValues, ← hcount, ← hmean]

variable (baseline : Measurements) {treatments others : List Measurements}

theorem ratios_same {i j : Nat} {t : Measurements} (hi : treatments[i]? = some t)
    (hj : others[j]? = some t) :
    List.Forall₂ (fun row other => row.benchmark = other.benchmark ∧
        ∃ ratio, row.ratios[i + 1]? = some ratio ∧ other.ratios[j + 1]? = some ratio)
      (ratioTable baseline treatments).result (ratioTable baseline others).result := by
  rw [ratioTable, ratioTable, List.forall₂_map_left_iff, List.forall₂_map_right_iff,
    List.forall₂_same]
  intro e _
  refine ⟨rfl, .ofMeasurement e.2 (t.get? e.1), ?_, ?_⟩
  · simp [ratioRow, hi]
  · simp [ratioRow, hj]

/-! ## Interchangeable treatments -/

/-- Two treatments have measured the same for all benchmarks of a baseline. -/
def SameMeasured (t other : Measurements) : Prop :=
  ∀ benchmark ∈ baseline.keys, t.measurement? benchmark = other.measurement? benchmark

/-- Treatments that have measured the same give the same table. -/
theorem ratioTable_congr (h : List.Forall₂ (SameMeasured baseline) treatments others) :
    ratioTable baseline treatments = ratioTable baseline others := by
  unfold ratioTable
  congr 1
  refine List.map_congr_left fun e he => ?_
  have hkey : e.1 ∈ baseline.keys := List.mem_map_of_mem he
  unfold ratioRow
  congr 2
  induction h with
  | nil => rfl
  | cons hsame _ ih =>
    rw [List.map_cons, List.map_cons, ih, Ratio.ofMeasurement_get?, hsame e.1 hkey,
      Ratio.ofMeasurement_get?]

/-! ## Reordered treatments -/

section Order

variable {n : Nat} (treatment : Fin n → Measurements) (σ : Equiv.Perm (Fin n))

/-- Reordered treatments have their ratios reordered in each row. -/
theorem rows_ofFn :
    List.Forall₂ (fun row other => ∃ benchmark base, ∃ ratio : Fin n → Ratio,
        row = ⟨benchmark, base :: List.ofFn ratio⟩ ∧
        other = ⟨benchmark, base :: List.ofFn (ratio ∘ σ)⟩)
      (ratioTable baseline (List.ofFn treatment)).result
      (ratioTable baseline (List.ofFn (treatment ∘ σ))).result := by
  rw [ratioTable, ratioTable, List.forall₂_map_left_iff, List.forall₂_map_right_iff,
    List.forall₂_same]
  intro e _
  refine ⟨e.1, .defined 1.0, fun i => .ofMeasurement e.2 ((treatment i).get? e.1), ?_, ?_⟩
  · rw [ratioRow, List.map_ofFn]
    rfl
  · rw [ratioRow, List.map_ofFn]
    rfl

theorem zipWith_ofFn {α β γ : Type} (f : α → β → γ) (a : Fin n → α) (b : Fin n → β) :
    List.zipWith f (List.ofFn a) (List.ofFn b) = List.ofFn fun i => f (a i) (b i) := by
  apply List.ext_getElem (by simp)
  intro i _ _
  simp

/-- Treatments have means if each column has a ratio, and these are the columns' own. -/
theorem means_ofFn (label : Fin n → String) (first : String) (summary : Summary) :
    ((Totals.start (first :: List.ofFn label)).observeAll
        (ratioTable baseline (List.ofFn treatment)).result).bind Totals.means = .ok summary ↔
      (∀ values ∈ columnValues baseline (List.ofFn treatment), values ≠ []) ∧
        summary = .ofValues first (List.replicate baseline.size 1.0) ::
          List.ofFn fun i => .ofValues (label i) (ratios baseline (treatment i)) := by
  have hmeans : List.zipWith ColumnMean.ofValues (first :: List.ofFn label)
      (columnValues baseline (List.ofFn treatment)) =
        .ofValues first (List.replicate baseline.size 1.0) ::
          List.ofFn fun i => .ofValues (label i) (ratios baseline (treatment i)) := by
    rw [columnValues, List.map_ofFn, List.zipWith_cons_cons, zipWith_ofFn]
    rfl
  have hlabels : (first :: List.ofFn label).length = (List.ofFn treatment).length + 1 := by simp
  rw [← hmeans]
  rcases means_ratioTable baseline hlabels with ⟨hall, hok⟩ | ⟨i, _, hi, -, -, herr⟩
  · rw [hok, Except.ok.injEq, eq_comm]
    exact (and_iff_right hall).symm
  · rw [herr]
    constructor
    · intro h
      cases h
    · rintro ⟨hall, -⟩
      exact absurd rfl (hall [] (List.mem_of_getElem? hi))

theorem mem_columnValues_ofFn {values : List Float}
    (h : values ∈ columnValues baseline (List.ofFn (treatment ∘ σ))) :
    values ∈ columnValues baseline (List.ofFn treatment) := by
  rw [columnValues, List.map_ofFn, List.mem_cons, List.mem_ofFn] at h ⊢
  refine h.imp id ?_
  rintro ⟨i, hi⟩
  exact ⟨σ i, hi⟩

end Order

namespace Table

/-- **Treatments do not interfere.** A treatment has the same ratios among any others, and the same
label, mean and count if both tables have a summary. Two treatments that have measured the same for
the benchmarks of the baseline, where either zero is like nothing, are interchangeable. Reordering
treatments together with their labels reorders ratios and means in the same way. -/
theorem treatments_independent (baseline : Measurements) :
    (∀ (treatments others : List Measurements) (i j : Nat) (t : Measurements),
      treatments[i]? = some t → others[j]? = some t →
      let rows := (ratioTable baseline treatments).result
      let otherRows := (ratioTable baseline others).result
      List.Forall₂ (fun row other => row.benchmark = other.benchmark ∧
          ∃ ratio, row.ratios[i + 1]? = some ratio ∧ other.ratios[j + 1]? = some ratio)
        rows otherRows ∧
      ∀ (o otherOutlet : Outlet) (labels otherLabels : List String) (label : String)
        (summary otherSummary : Summary),
        labels[i + 1]? = some label → otherLabels[j + 1]? = some label →
        (write o labels rows).2 = .ok summary →
        (write otherOutlet otherLabels otherRows).2 = .ok otherSummary →
        ∃ m, m.label = label ∧ summary[i + 1]? = some m ∧ otherSummary[j + 1]? = some m) ∧
    (∀ treatments others : List Measurements,
      List.Forall₂ (SameMeasured baseline) treatments others →
      ratioTable baseline treatments = ratioTable baseline others ∧
      ∀ (o : Outlet) (labels : List String),
        write o labels (ratioTable baseline treatments).result =
          write o labels (ratioTable baseline others).result) ∧
    ∀ (n : Nat) (treatment : Fin n → Measurements) (σ : Equiv.Perm (Fin n)),
      let rows := (ratioTable baseline (List.ofFn treatment)).result
      let reordered := (ratioTable baseline (List.ofFn (treatment ∘ σ))).result
      List.Forall₂ (fun row other => ∃ benchmark base, ∃ ratio : Fin n → Ratio,
          row = ⟨benchmark, base :: List.ofFn ratio⟩ ∧
          other = ⟨benchmark, base :: List.ofFn (ratio ∘ σ)⟩)
        rows reordered ∧
      ∀ (first : String) (label : Fin n → String) (o otherOutlet : Outlet) (summary : Summary),
        (write o (first :: List.ofFn label) rows).2 = .ok summary →
        otherOutlet.contents = [] →
        otherOutlet.device.HasRoom (text (first :: List.ofFn (label ∘ σ)) reordered).length →
        ∃ m, ∃ mean : Fin n → ColumnMean, summary = m :: List.ofFn mean ∧
          (write otherOutlet (first :: List.ofFn (label ∘ σ)) reordered).2 =
            .ok (m :: List.ofFn (mean ∘ σ)) := by
  refine ⟨fun treatments others i j t hi hj => ⟨ratios_same baseline hi hj, ?_⟩,
    fun treatments others h => ?_, fun n treatment σ => ⟨rows_ofFn baseline treatment σ, ?_⟩⟩
  · intro o otherOutlet labels otherLabels label summary otherSummary hlabel hotherLabel hok hother
    have hsummary := Totals.getElem?_summary (means_of_write hok) hlabel
    have hotherSummary := Totals.getElem?_summary (means_of_write hother) hotherLabel
    rw [values_column_succ baseline hi] at hsummary
    rw [values_column_succ baseline hj] at hotherSummary
    exact ⟨_, rfl, hsummary, hotherSummary⟩
  · rw [ratioTable_congr baseline h]
    exact ⟨rfl, fun _ _ => rfl⟩
  · intro first label o otherOutlet summary hok hempty hroom
    obtain ⟨hall, rfl⟩ :=
      (means_ofFn baseline treatment label first summary).mp (means_of_write hok)
    refine ⟨_, _, rfl, ?_⟩
    obtain ⟨-, ⟨hresult, -⟩ | ⟨hfull, -⟩⟩ :=
      write_cases hempty (first :: List.ofFn (label ∘ σ))
        (ratioTable baseline (List.ofFn (treatment ∘ σ))).result
    · refine hresult.trans ((means_ofFn baseline (treatment ∘ σ) (label ∘ σ) first _).mpr ⟨?_, rfl⟩)
      exact fun values hvalues => hall values (mem_columnValues_ofFn baseline treatment σ hvalues)
    · exact absurd hroom hfull

/-- One treatment has failed for a benchmark, and another has nothing there but an extra name. -/
theorem treatments_independent_failed_run :
    let baseline : Measurements := SortedMap.ofList [("a", 2.0), ("b", 4.0)]
    let kept : Measurements := SortedMap.ofList [("a", 1.0), ("b", 8.0)]
    let failed : Measurements := SortedMap.ofList [("a", -0.0), ("b", 2.0)]
    let missing : Measurements := SortedMap.ofList [("b", 2.0), ("z", 1.0)]
    let outcome (labels : List String) (treatments : List Measurements) :=
      (write (.direct .unlimited) labels (ratioTable baseline treatments).result).2
    (∃ summary other m, outcome ["base", "kept"] [kept] = .ok summary ∧
      outcome ["base", "failed", "kept"] [failed, kept] = .ok other ∧
      m.label = "kept" ∧ summary[1]? = some m ∧ other[2]? = some m) ∧
    ratioTable baseline [failed, kept] = ratioTable baseline [missing, kept] ∧
    ∃ m other keptMean, outcome ["base", "failed", "kept"] [failed, kept] =
        .ok [m, other, keptMean] ∧
      outcome ["base", "kept", "failed"] [kept, failed] = .ok [m, keptMean, other] := by
  intro baseline kept failed missing outcome
  obtain ⟨hsame, hcongr, hreorder⟩ := treatments_independent baseline
  obtain ⟨summary, hsummary⟩ : ∃ summary, outcome ["base", "kept"] [kept] = .ok summary :=
    ⟨_, (write_unlimited _ _).2.trans rfl⟩
  obtain ⟨other, hother⟩ :
      ∃ summary, outcome ["base", "failed", "kept"] [failed, kept] = .ok summary :=
    ⟨_, (write_unlimited _ _).2.trans rfl⟩
  refine ⟨?_, ?_, ?_⟩
  · obtain ⟨m, hlabel, hm, hotherMean⟩ := (hsame [kept] [failed, kept] 0 1 kept rfl rfl).2
      _ _ _ _ "kept" _ _ rfl rfl hsummary hother
    exact ⟨summary, other, m, hsummary, hother, hlabel, hm, hotherMean⟩
  · refine (hcongr [failed, kept] [missing, kept] (.cons ?_ (.cons (fun _ _ => rfl) .nil))).1
    intro benchmark hmem
    have hkeys : baseline.keys = ["a", "b"] := by decide +kernel
    rw [hkeys] at hmem
    rcases List.mem_cons.mp hmem with rfl | hmem
    · decide +kernel
    · obtain rfl := List.mem_singleton.mp hmem
      decide +kernel
  · obtain ⟨m, mean, rfl, hpermuted⟩ := (hreorder 2 ![failed, kept] (Equiv.swap 0 1)).2 "base"
      !["failed", "kept"] _ (.direct .unlimited) other hother rfl (Device.hasRoom_unlimited _)
    exact ⟨m, mean 0, mean 1, hother, hpermuted⟩

end Table

end BenchRatio
