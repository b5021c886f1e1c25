import BenchRatio.Measurements.Loading
import BenchRatio.Proofs.Measurements.Reading

/-!
# What loading results files gives

* `LoadFault`: why a file has no measurements.
* `load_cases`: a file loads or has such a fault.
* `loadAll_cases`: all files load, or the first one that does not is reported.
-/

namespace BenchRatio.Measurements

/-- A file can be read and none of its records is bad. -/
def Loads (s : Store) (d : Dialect) (p : Path) : Prop :=
  ∃ bytes, s.read p = .ok bytes ∧ AllGood (Record.records d bytes)

/-- Why a file does not load: it cannot be read, or this is its first bad record. The file is named
by its path either way. -/
inductive LoadFault (s : Store) (d : Dialect) (p : Path) : Problem → Prop
  | unreadable {cause : Fault} (h : s.read p = .error cause) : LoadFault s d p (.unreadable p cause)
  | badRow {bytes : Bytes} {i : Nat} {defect : RowDefect} (h : s.read p = .ok bytes)
      (first : FirstBad (Record.records d bytes) i defect) :
      LoadFault s d p (.badRow p.text (i + 1) defect)

variable {s : Store} {d : Dialect}

theorem LoadFault.not_loads {p : Path} {problem : Problem} (h : LoadFault s d p problem) :
    ¬ Loads s d p := by
  rintro ⟨bytes, hread, hgood⟩
  cases h with
  | unreadable hfail =>
    rw [hread] at hfail
    cases hfail
  | badRow hok first =>
    obtain rfl := Except.ok.inj (hread.symm.trans hok)
    obtain ⟨⟨r, hr, hdefect⟩, -⟩ := first
    exact hgood _ r hr hdefect.bad

theorem load_cases (s : Store) (d : Dialect) (p : Path) :
    (Loads s d p ∧ ∃ m, (load s d p).result = .ok m) ∨
      ∃ problem, LoadFault s d p problem ∧ (load s d p).result = .error problem := by
  unfold load
  cases hread : s.read p with
  | error cause => exact .inr ⟨_, .unreadable hread, rfl⟩
  | ok bytes =>
    simp only []
    rcases read_cases d p.text bytes with ⟨hgood, pairs, -, hok⟩ | ⟨i, defect, hfirst, herr⟩
    · rw [hok]
      exact .inl ⟨⟨bytes, hread, hgood⟩, _, rfl⟩
    · rw [herr]
      exact .inr ⟨_, .badRow hread hfirst, rfl⟩

theorem result_loadAll_cons (s : Store) (d : Dialect) (p : Path) (ps : List Path) :
    (loadAll s d (p :: ps)).result =
      (load s d p).result.bind fun m => (loadAll s d ps).result.map (m :: ·) := by
  rw [loadAll]
  cases (load s d p).result <;> rfl

/-- Files are loaded in order, up to the first one that does not load. -/
theorem loadAll_cases (s : Store) (d : Dialect) (ps : List Path) :
    ((∀ p ∈ ps, Loads s d p) ∧
      ∃ ms, (loadAll s d ps).result = .ok ms ∧ ms.length = ps.length) ∨
    ∃ before p rest problem, ps = before ++ p :: rest ∧ (∀ b ∈ before, Loads s d b) ∧
      LoadFault s d p problem ∧ (loadAll s d ps).result = .error problem := by
  induction ps with
  | nil => exact .inl ⟨by simp, [], rfl, rfl⟩
  | cons p ps ih =>
    rw [result_loadAll_cons]
    rcases load_cases s d p with ⟨hloads, m, hok⟩ | ⟨problem, hfault, herr⟩
    · rcases ih with
        ⟨hall, ms, hms, hlength⟩ | ⟨before, q, rest, problem, rfl, hbefore, hfault, herr⟩
      · refine .inl ⟨List.forall_mem_cons.mpr ⟨hloads, hall⟩, m :: ms, ?_, by simp [hlength]⟩
        rw [hok, hms]
        rfl
      · refine .inr ⟨p :: before, q, rest, problem, rfl,
          List.forall_mem_cons.mpr ⟨hloads, hbefore⟩, hfault, ?_⟩
        rw [hok, herr]
        rfl
    · rw [herr]
      exact .inr ⟨[], p, ps, problem, rfl, by simp, hfault, rfl⟩

end BenchRatio.Measurements
