import BenchRatio.Category
import BenchRatio.Proofs.Measurements.Loading
import BenchRatio.Proofs.Output.File

/-!
# What running a category gives

* `load_sources_cases`: all sources load, or the run ends with the first one that does not.
* `run_outcome`: **a failed category has changed nothing unless writing failed**, and which problems
  there can be.
-/

namespace BenchRatio.Category

open Measurements

variable (s : Store) (d : Dialect) (c : Category)

/-- A run ends with the first source that does not load, or all sources load and the table is
written. -/
theorem load_sources_cases :
    (∃ before src rest problem, c.sources = before ++ src :: rest ∧
      (∀ b ∈ before, Loads s d b.path) ∧ LoadFault s d src.path problem ∧
      (run s d c).2.result = .error problem ∧ (run s d c).1 = s) ∨
    ((∀ src ∈ c.sources, Loads s d src.path) ∧
      ∃ baseline treatments, treatments.length = c.treatments.length ∧
        (run s d c).2.result = (write s c baseline treatments).2.result ∧
        (run s d c).1 = (write s c baseline treatments).1) := by
  unfold run sources
  simp only []
  rcases load_cases s d c.baseline.path with ⟨hbase, baseline, hok⟩ | ⟨problem, hfault, herr⟩
  · rw [hok]
    simp only []
    rcases loadAll_cases s d (c.treatments.map (·.path)) with
      ⟨hall, treatments, hms, hlength⟩ | ⟨before, p, rest, problem, hsplit, hbefore, hfault, herr⟩
    · rw [hms]
      refine .inr ⟨List.forall_mem_cons.mpr ⟨hbase, ?_⟩, baseline, treatments, ?_, rfl, rfl⟩
      · exact fun src hsrc => hall _ (List.mem_map_of_mem hsrc)
      · rw [hlength, List.length_map]
    · rw [herr]
      obtain ⟨before', rest', hsplit', rfl, hrest⟩ := List.map_eq_append_iff.mp hsplit
      obtain ⟨src, rest'', rfl, rfl, rfl⟩ := List.map_eq_cons_iff.mp hrest
      refine .inl ⟨c.baseline :: before', src, rest'', problem, by rw [hsplit']; rfl, ?_, hfault,
        rfl, rfl⟩
      refine List.forall_mem_cons.mpr ⟨hbase, fun b hb => hbefore _ (List.mem_map_of_mem hb)⟩
  · rw [herr]
    exact .inl ⟨[], c.baseline, c.treatments, problem, rfl, by simp, hfault, rfl, rfl⟩

/-- Writing the table of loaded measurements changes nothing else. It has a column for each label,
so no row is too long or too short. -/
theorem write_cases (baseline : Measurements) {treatments : List Measurements}
    (h : treatments.length = c.treatments.length) :
    let after := (write s c baseline treatments).1
    let result := (write s c baseline treatments).2.result
    s.Writes c.output after ∧
      ((∃ report, result = .ok report) ∨ (∃ label, result = .error (.emptyColumn label)) ∨
        ∃ cause, result = .error (.unwritable c.output cause)) := by
  have hwidth : ∀ row ∈ (ratioTable baseline treatments).result,
      row.ratios.length = c.labels.length := by
    intro row hrow
    rw [length_ratios_of_mem_ratioTable hrow, h]
    simp [labels, sources]
  have hwrites := Table.writes_writeFile s c.output c.labels (ratioTable baseline treatments).result
  have hresult := Table.writeFile_result s c.output hwidth
  unfold write
  simp only [] at hresult ⊢
  generalize Table.writeFile s c.output c.labels (ratioTable baseline treatments).result =
    outcome at *
  obtain ⟨after, result⟩ := outcome
  rcases hresult with ⟨summary, rfl⟩ | ⟨label, rfl⟩ | ⟨cause, rfl⟩
  · exact ⟨hwrites, .inl ⟨_, rfl⟩⟩
  · exact ⟨hwrites, .inr (.inl ⟨label, rfl⟩)⟩
  · exact ⟨hwrites, .inr (.inr ⟨cause, rfl⟩)⟩

/-- **A failed category does no damage.** If a source does not load, the run gives the problem of
the first such source, the baseline first and then the treatments in their order, and leaves the
store as it was. If all sources load, only the output and missing directories above it change, and
the table is written, has a column without a ratio, or the output cannot be written. No other
problem of writing a table ever occurs. -/
theorem run_outcome :
    let after := (run s d c).1
    let result := (run s d c).2.result
    ((∃ src ∈ c.sources, ¬ Loads s d src.path) →
      ∃ before src rest problem, c.sources = before ++ src :: rest ∧
        (∀ b ∈ before, Loads s d b.path) ∧ LoadFault s d src.path problem ∧
        result = .error problem ∧ after = s) ∧
    ((∀ src ∈ c.sources, Loads s d src.path) →
      s.Writes c.output after ∧
        ((∃ report, result = .ok report) ∨ (∃ label, result = .error (.emptyColumn label)) ∨
          ∃ cause, result = .error (.unwritable c.output cause))) ∧
    (∀ benchmark expected actual, result ≠ .error (.widthMismatch benchmark expected actual)) ∧
    (∀ cause, result ≠ .error (.recordRefused cause)) ∧
    (∀ expected actual, result ≠ .error (.ragged expected actual)) ∧
    ∀ cause, result ≠ .error (.streamFailed cause) := by
  intro after result
  rcases load_sources_cases s d c with
    ⟨before, src, rest, problem, hsplit, hbefore, hfault, hresult, hafter⟩ |
    ⟨hall, baseline, treatments, hlength, hresult, hafter⟩
  · refine ⟨fun _ => ⟨before, src, rest, problem, hsplit, hbefore, hfault, hresult, hafter⟩,
      fun hall => ?_, ?_⟩
    · have hmem : src ∈ c.sources := by simp [hsplit]
      exact absurd (hall src hmem) hfault.not_loads
    · -- A fault of a source is none of the output's problems.
      change result = .error problem at hresult
      rw [hresult]
      cases hfault <;> simp
  · obtain ⟨hwrites, hcases⟩ := write_cases s c baseline hlength
    rw [← hafter] at hwrites
    simp only [← hresult] at hcases
    refine ⟨?_, fun _ => ⟨hwrites, hcases⟩, ?_⟩
    · rintro ⟨src, hmem, hfails⟩
      exact absurd (hall src hmem) hfails
    · change (∃ report, result = .ok report) ∨ _ at hcases
      rcases hcases with ⟨report, hreport⟩ | ⟨label, hlabel⟩ | ⟨cause, hcause⟩
      · simp [hreport]
      · have hlabel : result = .error (.emptyColumn label) := hlabel
        simp [hlabel]
      · have hcause : result = .error (.unwritable c.output cause) := hcause
        simp [hcause]

end BenchRatio.Category
