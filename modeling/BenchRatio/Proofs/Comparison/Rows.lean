import BenchRatio.Proofs.Comparison.Columns
import BenchRatio.Proofs.Measurements.History

/-!
# The rows of a comparison

A ratio table has one row for each benchmark of the baseline, in the order of the bytes of their
names, however the baseline has come about. Notices are given for the benchmarks with a zero there,
whatever the treatments are.

* `ratioRow_eq`: a row in terms of what the treatments have measured.
* `zeros`: the benchmarks with a zero in the baseline, of either sign.
* `notices_ratioTable`: the notices of a table.
* `ratioTable_build`: **the rows of a comparison** with a baseline that any steps have built.
-/

namespace BenchRatio

open Measurements

/-- In a row, a one stands for the baseline. Each treatment has its ratio where it has measured the
benchmark, and else none. -/
theorem ratioRow_eq (treatments : List Measurements) (benchmark : String) (base : Float) :
    ratioRow treatments benchmark base = ⟨benchmark, .defined 1.0 :: treatments.map fun t =>
      ((t.measurement? benchmark).map (· / base)).elim .undefined .defined⟩ := by
  rw [ratioRow]
  congr 2
  exact List.map_congr_left fun t _ => Ratio.ofMeasurement_get? base t benchmark

/-- The benchmarks of a baseline that have a zero there. -/
def Measurements.zeros (baseline : Measurements) : List String :=
  baseline.keys.filter fun benchmark =>
    baseline.get? benchmark = some 0.0 ∨ baseline.get? benchmark = some (-0.0)

theorem zeroNotices_eq {baseline : Measurements} {e : String × Float}
    (h : baseline.get? e.1 = some e.2) :
    zeroNotices e.1 e.2 =
      if baseline.get? e.1 = some 0.0 ∨ baseline.get? e.1 = some (-0.0)
      then [.zeroBaseline e.1] else [] := by
  simp only [zeroNotices, Binary64.beq_zero_iff, h, Option.some.injEq]

theorem notices_ratioTable (baseline : Measurements) (treatments : List Measurements) :
    (ratioTable baseline treatments).notices = baseline.zeros.map .zeroBaseline := by
  have hmem : ∀ e ∈ baseline.entries, baseline.get? e.1 = some e.2 := fun e he =>
    (SortedMap.get?_eq_some_iff_mem baseline e.1 e.2).mpr he
  rw [ratioTable, zeros, SortedMap.keys]
  generalize baseline.entries = entries at hmem
  simp only []
  induction entries with
  | nil => rfl
  | cons e entries ih =>
    obtain ⟨he, hrest⟩ := List.forall_mem_cons.mp hmem
    rw [List.flatMap_cons, ih hrest, zeroNotices_eq he, List.map_cons, List.filter_cons]
    simp only [decide_eq_true_eq]
    split <;> rfl

/-- **The rows of a comparison.** Let a baseline be built by any steps, which store, collect or read
measurements. Its names ascend strictly by their bytes, and each has the value that was stored last;
storing one more gives the value that was there; and there are as many entries as names. A table of
any treatments has one row for each of these names, in the same order. It has one ratio more than
there are treatments: a one, and for each treatment its measurement divided by the baseline's, or no
ratio where it has none or a zero. There is one notice for each name whose value is a zero, in the
order of the rows and whatever the treatments are. -/
theorem ratioTable_build (steps : List Step) :
    let baseline := build steps
    baseline.keys.Pairwise (fun a b => Utf8.encode a < Utf8.encode b) ∧
    (∀ name value, baseline.get? name = some value ↔ LastIn (stored steps) name value) ∧
    (∀ name, baseline.get? name = none ↔ ∀ p ∈ stored steps, p.1 ≠ name) ∧
    (∀ name value, baseline.perform (.insert name value) =
      (baseline.get? name, build (steps ++ [.insert name value]))) ∧
    baseline.size = ((stored steps).map (·.1)).dedup.length ∧
    ∀ treatments : List Measurements,
      let table := ratioTable baseline treatments
      table.result.map (·.benchmark) = baseline.keys ∧
      (∀ row ∈ table.result, ∃ base, baseline.get? row.benchmark = some base ∧
        row.ratios.length = treatments.length + 1 ∧
        row.ratios = .defined 1.0 :: treatments.map fun t =>
          ((t.measurement? row.benchmark).map (· / base)).elim .undefined .defined) ∧
      table.notices = baseline.zeros.map .zeroBaseline := by
  intro baseline
  have hbuilt : baseline = SortedMap.ofList (stored steps) := build_eq steps
  refine ⟨keys_ascending_bytes baseline, fun name value => ?_, fun name => ?_,
    fun name value => ?_, ?_, fun treatments => ?_⟩
  · rw [hbuilt]
    exact SortedMap.get?_ofList_eq_some_iff _ name value
  · rw [hbuilt]
    exact SortedMap.get?_ofList_eq_none_iff _ name
  · have hmore : build (steps ++ [.insert name value]) =
        (baseline.perform (.insert name value)).2 :=
      List.foldl_concat _ _ _ _
    rw [hmore, perform, SortedMap.getThenInsert?_eq]
  · rw [hbuilt]
    exact SortedMap.size_ofList _
  · refine ⟨benchmarks_ratioTable baseline treatments, fun row hrow => ?_,
      notices_ratioTable baseline treatments⟩
    have hlength := length_ratios_of_mem_ratioTable hrow
    obtain ⟨e, he, rfl⟩ := List.mem_map.mp hrow
    rw [ratioRow_eq] at hlength ⊢
    exact ⟨e.2, (SortedMap.get?_eq_some_iff_mem baseline e.1 e.2).mpr he, hlength, rfl⟩

/-- Capital letters come before small ones, and what is not ASCII comes last. -/
example : (build [.insert "b" 1.0, .insert "é" 2.0, .insert "B" 3.0, .insert "b" 4.0]).keys =
    ["B", "b", "é"] := by decide +kernel

end BenchRatio
