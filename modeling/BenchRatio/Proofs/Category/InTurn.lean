import BenchRatio.Category
import Mathlib.Tactic.Common

/-!
# Categories in turn

* `Category.runInTurn`: categories run one after the other, each on the store that the one before it
  left.
* `getElem?_runInTurn`: **the result at a position** is that of its category, on the store that the
  categories before it left.
* `name_of_run`: a report is that of its own category.
-/

namespace BenchRatio.Category

/-- Runs categories one after the other, each on the store that the one before it left, and gives
the last store and the result of each. -/
def runInTurn (s : Store) (d : Dialect) :
    List Category → Store × List (Except Problem CategoryReport)
  | [] => (s, [])
  | c :: more =>
    let later := runInTurn (c.run s d).1 d more
    (later.1, (c.run s d).2.result :: later.2)

variable (s : Store) (d : Dialect)

theorem length_runInTurn (cs : List Category) : (runInTurn s d cs).2.length = cs.length := by
  induction cs generalizing s with
  | nil => rfl
  | cons c cs ih => simp [runInTurn, ih]

/-- The store that more categories find is the one that those before them left. -/
theorem runInTurn_append (cs more : List Category) :
    runInTurn s d (cs ++ more) =
      ((runInTurn (runInTurn s d cs).1 d more).1,
        (runInTurn s d cs).2 ++ (runInTurn (runInTurn s d cs).1 d more).2) := by
  induction cs generalizing s with
  | nil => rfl
  | cons c cs ih => simp [runInTurn, ih]

/-- **Each category runs at its position**, on the store that the categories before it left. -/
theorem getElem?_runInTurn (cs : List Category) (i : Nat) :
    (runInTurn s d cs).2[i]? =
      cs[i]?.map fun c => (c.run (runInTurn s d (cs.take i)).1 d).2.result := by
  induction cs generalizing s i with
  | nil => rfl
  | cons c cs ih =>
    cases i with
    | zero => rfl
    | succ i => exact ih (c.run s d).1 i

/-- A report is that of its own category. -/
theorem name_of_run {s : Store} {d : Dialect} {c : Category} {report : CategoryReport}
    (h : (c.run s d).2.result = .ok report) :
    report.category = c.name ∧ report.output = c.output := by
  unfold run at h
  simp only [] at h
  split at h
  · cases h
  · split at h
    · cases h
    · unfold write at h
      simp only [] at h
      split at h
      · cases h
      · cases h
        exact ⟨rfl, rfl⟩

end BenchRatio.Category
