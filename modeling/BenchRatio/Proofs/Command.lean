import BenchRatio.Command
import BenchRatio.Proofs.Category.InTurn
import BenchRatio.Proofs.Report.Text
import Mathlib.Data.List.Forall2
import Mathlib.Data.List.Perm.Basic
import Mathlib.Data.List.Range

/-!
# What a run does with its categories

* `SortedOut`: results sorted into reports and failures, by position.
* `runAll_eq`, `sortedOut_runAll`: running all categories is running them in turn and sorting out
  the results.
* `run_of_roster`: **no category is lost**, in what is reported and in how the run ends.
-/

namespace BenchRatio.Command

/-- Results by position, sorted into reports and failures: every position is in exactly one of two
ascending lists, and what stands there is reported or failed under the name at that position. -/
def SortedOut (names : List String) (results : List (Except Problem CategoryReport))
    (reports : List CategoryReport) (failures : List Failure) : Prop :=
  ∃ good bad : List Nat, good.Pairwise (· < ·) ∧ bad.Pairwise (· < ·) ∧
    (good ++ bad).Perm (List.range names.length) ∧
    List.Forall₂ (fun i report => results[i]? = some (.ok report) ∧
      names[i]? = some report.category) good reports ∧
    List.Forall₂ (fun i failure => results[i]? = some (.error failure.problem) ∧
      names[i]? = some failure.category) bad failures

/-! ## Sorting results -/

/-- The report in a category's result. -/
def reported? (ran : Category × Except Problem CategoryReport) : Option CategoryReport :=
  match ran.2 with
  | .ok report => some report
  | .error _ => none

/-- The failure in a category's result. -/
def failed? (ran : Category × Except Problem CategoryReport) : Option Failure :=
  match ran.2 with
  | .ok _ => none
  | .error problem => some ⟨ran.1.name, problem⟩

theorem isSome_failed? (ran : Category × Except Problem CategoryReport) :
    (failed? ran).isSome = !(reported? ran).isSome := by
  obtain ⟨c, problem | report⟩ := ran <;> rfl

/-- The positions where a list gives something, with what it gives there. -/
theorem forall₂_positions {α β : Type} (f : α → Option β) (l : List α) :
    List.Forall₂ (fun i b => ∃ a, l[i]? = some a ∧ f a = some b)
      ((List.range l.length).filter fun i => (l[i]?.bind f).isSome) (l.filterMap f) := by
  induction l with
  | nil => exact .nil
  | cons a l ih =>
    have hmore : List.Forall₂ (fun i b => ∃ x, (a :: l)[i]? = some x ∧ f x = some b)
        (((List.range l.length).map Nat.succ).filter fun i => ((a :: l)[i]?.bind f).isSome)
        (l.filterMap f) := by
      rw [List.filter_map, List.forall₂_map_left_iff]
      exact ih
    rw [List.length_cons, List.range_succ_eq_map]
    cases hf : f a with
    | none =>
      rw [List.filterMap_cons_none hf, List.filter_cons_of_neg (by simp [hf])]
      exact hmore
    | some b =>
      rw [List.filterMap_cons_some hf, List.filter_cons_of_pos (by simp [hf])]
      exact .cons ⟨a, rfl, hf⟩ hmore

/-- Running all categories is running them in turn and sorting out the results. -/
theorem runAll_eq (s : Store) (d : Dialect) (cs : List Category) :
    (runAll s d cs).store = (Category.runInTurn s d cs).1 ∧
      (runAll s d cs).reports = (cs.zip (Category.runInTurn s d cs).2).filterMap reported? ∧
      (runAll s d cs).failures = (cs.zip (Category.runInTurn s d cs).2).filterMap failed? := by
  induction cs generalizing s with
  | nil => exact ⟨rfl, rfl, rfl⟩
  | cons c cs ih =>
    obtain ⟨hstore, hreports, hfailures⟩ := ih (c.run s d).1
    rw [runAll, Category.runInTurn]
    simp only []
    cases hresult : (c.run s d).2.result with
    | ok report =>
      refine ⟨hstore, ?_, ?_⟩
      · rw [List.zip_cons_cons, List.filterMap_cons_some (by rfl), ← hreports]
      · rw [List.zip_cons_cons, List.filterMap_cons_none (by rfl), ← hfailures]
    | error problem =>
      refine ⟨hstore, ?_, ?_⟩
      · rw [List.zip_cons_cons, List.filterMap_cons_none (by rfl), ← hreports]
      · rw [List.zip_cons_cons, List.filterMap_cons_some (by rfl), ← hfailures]

/-- No result is lost, doubled or moved. -/
theorem sortedOut_runAll (s : Store) (d : Dialect) (cs : List Category) :
    SortedOut (cs.map (·.name)) (Category.runInTurn s d cs).2 (runAll s d cs).reports
      (runAll s d cs).failures := by
  obtain ⟨-, hreports, hfailures⟩ := runAll_eq s d cs
  have hlength := Category.length_runInTurn s d cs
  have hget := Category.getElem?_runInTurn s d cs
  generalize (Category.runInTurn s d cs).2 = results at *
  have hzip : (cs.zip results).length = cs.length := by simp [hlength]
  have hgood := forall₂_positions reported? (cs.zip results)
  have hbad := forall₂_positions failed? (cs.zip results)
  rw [← hreports] at hgood
  rw [← hfailures] at hbad
  have hexclusive : ∀ i ∈ List.range (cs.zip results).length,
      (((cs.zip results)[i]?.bind failed?).isSome : Bool) =
        !((cs.zip results)[i]?.bind reported?).isSome := by
    intro i hi
    rw [List.getElem?_eq_getElem (List.mem_range.mp hi)]
    exact isSome_failed? _
  refine ⟨_, _, List.pairwise_lt_range.filter _, List.pairwise_lt_range.filter _, ?_,
    hgood.imp ?_, hbad.imp ?_⟩
  · rw [List.filter_congr hexclusive, hzip, List.length_map]
    exact List.filter_append_perm _ _
  · rintro i report ⟨⟨c, result⟩, hat, hsome⟩
    obtain ⟨hc, hresult⟩ := List.getElem?_zip_eq_some.mp hat
    cases result with
    | error problem => cases hsome
    | ok found =>
      obtain rfl := Option.some.inj hsome
      have hran := hget i
      rw [hc, hresult] at hran
      refine ⟨hresult, ?_⟩
      rw [List.getElem?_map, hc, (Category.name_of_run (Option.some.inj hran).symm).1]
      rfl
  · rintro i failure ⟨⟨c, result⟩, hat, hsome⟩
    obtain ⟨hc, hresult⟩ := List.getElem?_zip_eq_some.mp hat
    cases result with
    | ok found => cases hsome
    | error problem =>
      obtain rfl := Option.some.inj hsome
      refine ⟨hresult, ?_⟩
      rw [List.getElem?_map, hc]
      rfl

/-- Every position is counted once. -/
theorem SortedOut.length {names : List String} {results : List (Except Problem CategoryReport)}
    {reports : List CategoryReport} {failures : List Failure}
    (h : SortedOut names results reports failures) :
    reports.length + failures.length = names.length := by
  obtain ⟨good, bad, -, -, hperm, hgood, hbad⟩ := h
  have := hperm.length_eq
  rw [List.length_append, List.length_range] at this
  rw [← hgood.length_eq, ← hbad.length_eq, this]

/-! ## The whole run -/

/-- The words for a run some of whose categories have failed. -/
def failureWords (total : Nat) (failures : List Failure) : String :=
  s!"{failures.length} of {total} categories failed\n  " ++
    "\n  ".intercalate (failures.map fun f => s!"{f.category}: {f.problem.message}")

theorem run_eq_runRoster {s : Store} {a : Arguments} {r : Roster} {d : Dialect}
    (hroster : roster s a = .ok r) (hdialect : dialect a = .ok d) (out : Stdout) :
    run s a out = runRoster s r d (a.format.getD .text) out := by
  rw [run, hroster, hdialect]
  rfl

theorem finalProblem_of_unread {p : Progress} {printed : Option Fault}
    (h : printed = none ∨ printed = some .brokenPipe) :
    finalProblem p printed = if p.failures = [] then none
      else some (.categories (p.failures.length + p.reports.length) p.failures) := by
  rcases h with rfl | rfl <;> simp [finalProblem]

theorem printed_of_ne_full {out : Stdout} (h : out ≠ .full) (text : String) :
    (print out text).2 = none ∨ (print out text).2 = some .brokenPipe := by
  cases out with
  | ready => exact .inl rfl
  | full => exact absurd rfl h
  | closed =>
    rw [print]
    split
    · exact .inl rfl
    · exact .inr rfl

/-- **A run loses no category.** A run with an accepted roster and dialect runs every category of
the roster once and in order, each on the store that those before it left, whether they have failed
or not. Every position is sorted out either into the reports or into the failures, both in order.
What is printed is built from exactly these: as text, a block with the means of each report and then
a line with the benchmarks of each, and as JSON, the reports and the failures. If the output takes
the report or nobody reads it, the run succeeds exactly if no category has failed, and otherwise
says how many have and why; neither the format nor a reader that is gone makes a difference to this
or to the files. -/
theorem run_of_roster {s : Store} {a : Arguments} {r : Roster} {d : Dialect}
    (hroster : roster s a = .ok r) (hdialect : dialect a = .ok d) :
    let left i := (Category.runInTurn s d (r.plan.take i)).1
    ∃ results reports failures, results.length = r.categories.length ∧
      (∀ i name, r.categories[i]? = some name →
        let ran := (r.category name).run (left i) d
        results[i]? = some ran.2.result ∧ left (i + 1) = ran.1) ∧
      SortedOut r.categories results reports failures ∧
      ∀ (format : Option Format) (out : Stdout),
        let o := run s { a with format } out
        o.store = left r.categories.length ∧
        (out = .ready → match format.getD .text with
          | .text => ∃ label : String → String,
              (∀ category, Report.Heads (label category) category) ∧
              o.stdout = String.join (reports.map fun report =>
                  label report.category ++ " means:\n" ++ String.join (report.summary.map fun m =>
                    "  " ++ m.label ++ ": " ++ Decimal.Layout.cell.render m.mean ++
                      " (n=" ++ toString m.count ++ ")\n")) ++
                String.join (reports.map fun report =>
                  report.category ++ " benchmarks: " ++
                    ",".intercalate report.benchmarks ++ "\n")
          | .json => o.stdout =
              (Json.object [("categories", .array (reports.map CategoryReport.toJson)),
                ("failed", .array (failures.map Report.failureToJson))]).render ++ "\n") ∧
        (out ≠ .full → (o.problem = none ↔ failures = []) ∧
          ∀ problem, o.problem = some problem →
            problem.chain = [failureWords r.categories.length failures]) := by
  intro left
  have hnames : r.plan.map (·.name) = r.categories := by
    simp [Roster.plan, Roster.category, Function.comp_def]
  have hlength : r.plan.length = r.categories.length := by simp [Roster.plan]
  obtain ⟨hstore, -, -⟩ := runAll_eq s d r.plan
  have hsorted := sortedOut_runAll s d r.plan
  rw [hnames] at hsorted
  refine ⟨(Category.runInTurn s d r.plan).2, (runAll s d r.plan).reports,
    (runAll s d r.plan).failures, ?_, fun i name hname => ?_, hsorted, fun format out => ?_⟩
  · rw [Category.length_runInTurn, hlength]
  · have hplan : r.plan[i]? = some (r.category name) := by simp [Roster.plan, hname]
    refine ⟨by rw [Category.getElem?_runInTurn, hplan]; rfl, ?_⟩
    change (Category.runInTurn s d (r.plan.take (i + 1))).1 = _
    rw [List.take_add_one, hplan, Category.runInTurn_append]
    rfl
  · -- The format is read after the roster and the dialect.
    have hroster' : roster s { a with format } = .ok r := hroster
    have hdialect' : dialect { a with format } = .ok d := hdialect
    have hrun : run s { a with format } out = runRoster s r d (format.getD .text) out :=
      run_eq_runRoster hroster' hdialect' out
    have hprogress : (runRoster s r d (format.getD .text) out).problem =
        finalProblem (runAll s d r.plan) (print out (report (format.getD .text)
          (runAll s d r.plan)).result).2 := rfl
    rw [hrun]
    refine ⟨?_, ?_, fun hout => ?_⟩
    · change (runAll s d r.plan).store = (Category.runInTurn s d (r.plan.take _)).1
      rw [hstore, ← hlength, List.take_length]
    · rintro rfl
      cases format.getD .text with
      | text => exact ⟨Report.meansLabel, Report.heads_meansLabel, Report.text_eq_lines _⟩
      | json => rfl
    · rw [hprogress, finalProblem_of_unread (printed_of_ne_full hout _)]
      split
      · next hnone => exact ⟨by simp [hnone], by simp⟩
      · next hsome =>
        refine ⟨by simp [hsome], fun problem hproblem => ?_⟩
        obtain rfl := Option.some.inj hproblem
        rw [Nat.add_comm, hsorted.length]
        rfl

/-- A name that stands twice and has no results either time, around one that has. -/
theorem run_of_roster_repeated_name :
    let s : Store :=
      { nodes := SortedMap.ofList [(["o-scores.csv"], .file "name,value\nx,2\n".toUTF8.toList),
          (["t-scores.csv"], .file "name,value\nx,1\n".toUTF8.toList)]
        workingDir := [] }
    let a : Arguments :=
      { resultsDir := some ⟨""⟩, outputDir := some ⟨"out"⟩, baseline := some "o"
        techniques := ["t"], categories := ["gone", "scores", "gone"] }
    let r : Roster := ⟨⟨""⟩, ⟨"out"⟩, "o", ["t"], ["gone", "scores", "gone"]⟩
    let d : Dialect := ⟨44, 124⟩
    roster s a = .ok r ∧ dialect a = .ok d ∧
      ∃ results reports failures, SortedOut r.categories results reports failures ∧
        failures ≠ [] ∧ reports ≠ [] ∧
        ∀ format, ∃ problem, (run s { a with format } .closed).problem = some problem ∧
          problem.chain = [failureWords 3 failures] := by
  intro s a r d
  have hroster : roster s a = .ok r := rfl
  have hdialect : dialect a = .ok d := rfl
  obtain ⟨results, reports, failures, -, -, hsorted, hrun⟩ := run_of_roster hroster hdialect
  refine ⟨hroster, hdialect, results, reports, failures, hsorted, ?_⟩
  have hprinted : (run s { a with format := none } .ready).stdout ≠ "" := by decide +kernel
  have hproblem : (run s { a with format := none } .closed).problem.isSome = true := by
    decide +kernel
  have hfailures : failures ≠ [] := by
    intro hnone
    rw [((hrun none .closed).2.2 (by simp)).1.mpr hnone] at hproblem
    cases hproblem
  refine ⟨hfailures, ?_, fun format => ?_⟩
  · rintro rfl
    obtain ⟨label, -, htext⟩ := (hrun none .ready).2.1 rfl
    exact hprinted htext
  · obtain ⟨hnone, hwords⟩ := (hrun format .closed).2.2 (by simp)
    obtain ⟨problem, hsome⟩ := Option.ne_none_iff_exists'.mp (mt hnone.mp hfailures)
    exact ⟨problem, hsome, hwords problem hsome⟩

end BenchRatio.Command
