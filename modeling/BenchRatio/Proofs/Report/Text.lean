import BenchRatio.Report

/-!
# What a report as text says

A block for each category says its means, and then a line for each says its benchmarks. A block
starts with the category's name in the singular and with a capital letter:

    Score means:
      original: 1.0 (n=2)
      fast: 0.5 (n=1)
    scores benchmarks: a,b

* `IsSingular`, `Heads`: what stands at the head of a category's means.
* `text_eq_lines`: **the lines of a report**.
-/

namespace BenchRatio.Report

/-- A name without the `s` of a plural, unless nothing else would be left. -/
def IsSingular (name stem : List Char) : Prop :=
  (stem ≠ [] ∧ name = stem ++ ['s']) ∨ (stem = name ∧ ∀ other, name = other ++ ['s'] → other = [])

/-- What stands at the head of a category's means: its name in the singular, with a capital
letter. -/
def Heads (label category : String) : Prop :=
  ∃ stem, IsSingular category.toList stem ∧
    ((stem = [] ∧ label = "") ∨
      ∃ first more, stem = first :: more ∧ label = String.ofList (Text.capital first ++ more))

/-- A name that ends in an `s` behind something else is a plural. -/
theorem isSingular_ite (cs : List Char) :
    IsSingular cs (if cs.getLast? = some 's' ∧ 1 < cs.length then cs.dropLast else cs) := by
  by_cases hplural : cs.getLast? = some 's' ∧ 1 < cs.length
  · rw [if_pos hplural]
    obtain ⟨hlast, hlong⟩ := hplural
    obtain ⟨stem, rfl⟩ := List.getLast?_eq_some_iff.mp hlast
    rw [List.dropLast_concat]
    refine .inl ⟨?_, rfl⟩
    rintro rfl
    simp at hlong
  · rw [if_neg hplural]
    refine .inr ⟨rfl, fun other hother => ?_⟩
    cases other with
    | nil => rfl
    | cons c other =>
      refine absurd ⟨?_, ?_⟩ hplural
      · rw [hother, List.getLast?_concat]
      · simp [hother]

theorem heads_meansLabel (category : String) : Heads (meansLabel category) category := by
  have hsingular := isSingular_ite category.toList
  unfold meansLabel
  dsimp only
  generalize (if category.toList.getLast? = some 's' ∧ 1 < category.toList.length then
    category.toList.dropLast else category.toList) = stem at hsingular ⊢
  refine ⟨stem, hsingular, ?_⟩
  cases stem with
  | nil => exact .inl ⟨rfl, rfl⟩
  | cons first more => exact .inr ⟨first, more, rfl, rfl⟩

example : ["scores", "s", "boss"].map meansLabel = ["Score", "S", "Bos"] := by decide +kernel

theorem join_flatMap {α : Type} (lines : α → List String) (as : List α) :
    String.join (as.flatMap lines) = String.join (as.map fun a => String.join (lines a)) := by
  induction as with
  | nil => rfl
  | cons a as ih =>
    rw [List.flatMap_cons, String.join_append, ih, List.map_cons, String.join_cons]

theorem join_meanLines (r : CategoryReport) :
    String.join ((meanLines r).map (· ++ "\n")) =
      meansLabel r.category ++ " means:\n" ++ String.join (r.summary.map fun m =>
        "  " ++ m.label ++ ": " ++ Decimal.Layout.cell.render m.mean ++
          " (n=" ++ toString m.count ++ ")\n") := by
  have hhead : s!"{meansLabel r.category} means:" ++ "\n" =
      meansLabel r.category ++ " means:\n" := by
    rw [String.append_assoc]
    rfl
  rw [meanLines, List.map_cons, String.join_cons, List.map_map, hhead]
  congr 2
  apply List.map_congr_left
  intro m _
  rw [Function.comp_apply, String.append_assoc]
  rfl

/-- **The lines of a report.** A block for each category says its means, one line for each column,
and then a line for each category says its benchmarks. -/
theorem text_eq_lines (reports : List CategoryReport) :
    text reports = String.join (reports.map fun r =>
        meansLabel r.category ++ " means:\n" ++ String.join (r.summary.map fun m =>
          "  " ++ m.label ++ ": " ++ Decimal.Layout.cell.render m.mean ++
            " (n=" ++ toString m.count ++ ")\n")) ++
      String.join (reports.map fun r =>
        r.category ++ " benchmarks: " ++ ",".intercalate r.benchmarks ++ "\n") := by
  rw [text, List.map_append, String.join_append, List.map_flatMap, join_flatMap, List.map_map]
  simp only [join_meanLines]
  rfl

end BenchRatio.Report
