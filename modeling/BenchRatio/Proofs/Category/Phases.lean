import BenchRatio.Proofs.Category
import BenchRatio.Proofs.Output.Footprint

/-!
# The two phases of a category

A category loads all its files and then writes its table.

* `loaded`: the first phase, which only reads.
* `run_eq`: **a run is the two phases**, the second one only after a success of the first.
* `writes_run`, `isTree_run`: what a run changes, and that it leaves a tree.
-/

namespace BenchRatio.Category

open Store

variable {s t : Store} {d : Dialect} {c : Category}

/-- The measurements of the baseline and of the treatments. -/
def loaded (s : Store) (d : Dialect) (c : Category) :
    Except Problem (Measurements × List Measurements) :=
  match (Measurements.load s d c.baseline.path).result with
  | .error problem => .error problem
  | .ok baseline =>
    match (Measurements.loadAll s d (c.treatments.map (·.path))).result with
    | .error problem => .error problem
    | .ok treatments => .ok (baseline, treatments)

theorem loaded_eq_bind (s : Store) (d : Dialect) (c : Category) :
    loaded s d c = (Measurements.load s d c.baseline.path).result.bind fun baseline =>
      (Measurements.loadAll s d (c.treatments.map (·.path))).result.map (baseline, ·) := by
  unfold loaded
  cases (Measurements.load s d c.baseline.path).result with
  | error problem => rfl
  | ok baseline => cases (Measurements.loadAll s d (c.treatments.map (·.path))).result <;> rfl

/-- **A run is the two phases.** -/
theorem run_eq (s : Store) (d : Dialect) (c : Category) :
    ((c.run s d).1, (c.run s d).2.result) =
      match loaded s d c with
      | .error problem => (s, .error problem)
      | .ok (baseline, treatments) =>
        let written := Table.writeFile s c.output c.labels (ratioTable baseline treatments).result
        (written.1, written.2.map fun summary => ⟨c.name, c.output, summary, baseline.keys⟩) := by
  unfold run loaded
  simp only []
  cases (Measurements.load s d c.baseline.path).result with
  | error problem => rfl
  | ok baseline =>
    simp only []
    cases (Measurements.loadAll s d (c.treatments.map (·.path))).result with
    | error problem => rfl
    | ok treatments =>
      simp only [write]
      generalize Table.writeFile s c.output c.labels (ratioTable baseline treatments).result =
        written
      obtain ⟨s', result⟩ := written
      cases result <;> rfl

theorem run_of_error {problem : Problem} (h : loaded s d c = .error problem) :
    (c.run s d).1 = s ∧ (c.run s d).2.result = .error problem := by
  have hrun := run_eq s d c
  rw [h] at hrun
  exact ⟨congrArg Prod.fst hrun, congrArg Prod.snd hrun⟩

theorem run_of_loaded {baseline : Measurements} {treatments : List Measurements}
    (h : loaded s d c = .ok (baseline, treatments)) :
    (c.run s d).1 =
        (Table.writeFile s c.output c.labels (ratioTable baseline treatments).result).1 ∧
      (c.run s d).2.result =
        (Table.writeFile s c.output c.labels (ratioTable baseline treatments).result).2.map
          fun summary => ⟨c.name, c.output, summary, baseline.keys⟩ := by
  have hrun := run_eq s d c
  rw [h] at hrun
  exact ⟨congrArg Prod.fst hrun, congrArg Prod.snd hrun⟩

/-- A category whose baseline cannot be read ends with it. -/
theorem result_of_unread {cause : Fault} (h : s.read c.baseline.path = .error cause) :
    (c.run s d).2.result = .error (.unreadable c.baseline.path cause) := by
  have hloaded : loaded s d c = .error (.unreadable c.baseline.path cause) := by
    simp only [loaded, Measurements.load, h]
  exact (run_of_error hloaded).2

/-- A run changes the output and what is missing above it. -/
theorem writes_run (s : Store) (d : Dialect) (c : Category) : s.Writes c.output (c.run s d).1 := by
  cases hloaded : loaded s d c with
  | error problem =>
    rw [(run_of_error hloaded).1]
    exact .refl _ _
  | ok measured =>
    rw [(run_of_loaded hloaded).1]
    exact Table.writes_writeFile s _ _ _

theorem isTree_run (hs : s.IsTree) (d : Dialect) (c : Category) : (c.run s d).1.IsTree := by
  cases hloaded : loaded s d c with
  | error problem =>
    rw [(run_of_error hloaded).1]
    exact hs
  | ok measured =>
    rw [(run_of_loaded hloaded).1]
    exact Table.isTree_writeFile hs _ _ _

end BenchRatio.Category
