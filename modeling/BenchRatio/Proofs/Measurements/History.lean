import BenchRatio.Proofs.Measurements.Interrupted

/-!
# How measurements come about

Measurements are stored one by one, collected from pairs and read from streams, in any order and any
number of times. Whatever the steps were, the set after them is what would be collected from the
pairs stored since it was last begun anew.

* `Step`, `build`: the steps, and the measurements after them.
* `stored`: the pairs that have been stored.
* `read_eq_ok`: reading is collecting what the data rows give.
* `perform_ofList`: one step.
* `build_eq`: **a set is collected from what was stored**, after any steps.
-/

namespace BenchRatio.Measurements

open Record

/-- A step in building measurements. -/
inductive Step
  /-- One more measurement is stored. -/
  | insert (name : String) (value : Float)
  /-- The set is begun anew with the pairs. -/
  | collect (pairs : List (String × Float))
  /-- The set is begun anew with what a stream gives. If it gives none, the old set is kept. -/
  | read (d : Dialect) (origin : String) (s : Stream)

/-- Performs a step: the value that is replaced if something is stored, and the set afterwards. -/
def perform (m : Measurements) : Step → Option Float × Measurements
  | .insert name value => m.getThenInsert? name value
  | .collect pairs => (none, SortedMap.ofList pairs)
  | .read d origin s =>
    match (read d origin s).result with
    | .ok m' => (none, m')
    | .error _ => (none, m)

/-- The measurements after some steps, where there were none before. -/
def build (steps : List Step) : Measurements :=
  steps.foldl (fun m step => (m.perform step).2) empty

/-- What the data rows give. -/
def given (d : Dialect) (bytes : Bytes) : List (String × Float) :=
  ((records d bytes).drop 1).filterMap fun r => (entry r).toOption

/-- The pairs that have been stored after a step, if those were stored before it. -/
def Step.after (earlier : List (String × Float)) : Step → List (String × Float)
  | .insert name value => earlier ++ [(name, value)]
  | .collect pairs => pairs
  | .read d origin s =>
    match (Measurements.read d origin s).result with
    | .ok _ => given d s.bytes
    | .error _ => earlier

/-- The pairs that have been stored since the set was last begun anew. -/
def stored (steps : List Step) : List (String × Float) := steps.foldl Step.after []

/-! ## Reading -/

theorem entry_of_measures {r : Raw} {p : String × Float} (h : Measures r.fields p) :
    entry r = .ok p := by
  obtain ⟨htext, field, second, more, raw, hfields, hname, hraw, hvalue⟩ := h
  unfold entry text
  rcases decodeFields_cases 0 r.fields with
    ⟨texts, hok, htexts⟩ | ⟨good, bad, others, hsplit, -, hbad, -⟩
  · rw [hfields] at htexts
    match texts, htexts with
    | name :: value :: others, .cons hname' (.cons hraw' _) =>
      obtain rfl := Option.some.inj (hname.symm.trans hname')
      obtain rfl := Option.some.inj (hraw.symm.trans hraw')
      rw [hok]
      simp only [row, hvalue]
  · exact absurd ⟨bad, by rw [hsplit]; simp, hbad⟩ htext.not_exists

theorem filterMap_entry {rows : List Raw} {pairs : List (String × Float)}
    (h : List.Forall₂ (fun r p => Measures r.fields p) rows pairs) :
    rows.filterMap (fun r => (entry r).toOption) = pairs := by
  induction h with
  | nil => rfl
  | cons hr _ ih => rw [List.filterMap_cons_some (by rw [entry_of_measures hr]; rfl), ih]

theorem read_eq_ok {d : Dialect} {origin : String} {s : Stream} {m : Measurements}
    (h : (read d origin s).result = .ok m) : m = SortedMap.ofList (given d s.bytes) := by
  obtain ⟨bytes, failure⟩ := s
  cases failure with
  | none =>
    rcases read_cases d origin bytes with ⟨-, pairs, hpairs, hok⟩ | ⟨i, defect, -, herr⟩
    · rw [given, filterMap_entry hpairs]
      exact Except.ok.inj (h.symm.trans hok)
    · rw [herr] at h
      cases h
  | some fault =>
    rcases read_failing_cases d origin bytes fault with
      ⟨rfl, hok⟩ | ⟨-, -, herr⟩ | ⟨i, defect, -, herr, -⟩
    · rw [given, records_mark]
      exact Except.ok.inj (h.symm.trans hok)
    · rw [herr] at h
      cases h
    · rw [herr] at h
      cases h

/-! ## Any steps -/

/-- What a step makes of a collected set is collected too. -/
theorem perform_ofList (pairs : List (String × Float)) (step : Step) :
    (perform (SortedMap.ofList pairs) step).2 = SortedMap.ofList (step.after pairs) := by
  cases step with
  | insert name value =>
    rw [perform, SortedMap.getThenInsert?_eq, SortedMap.insert_ofList]
    rfl
  | collect pairs => rfl
  | read d origin s =>
    simp only [perform, Step.after]
    cases hread : (read d origin s).result with
    | ok m => exact read_eq_ok hread
    | error problem => rfl

/-- **A set is collected from what was stored.** -/
theorem build_eq (steps : List Step) : build steps = SortedMap.ofList (stored steps) := by
  have hrun : ∀ (pairs : List (String × Float)),
      steps.foldl (fun m step => (perform m step).2) (SortedMap.ofList pairs) =
        SortedMap.ofList (steps.foldl Step.after pairs) := by
    induction steps with
    | nil => exact fun _ => rfl
    | cons step steps ih =>
      intro pairs
      rw [List.foldl_cons, List.foldl_cons, perform_ofList, ih]
  exact hrun []

end BenchRatio.Measurements
