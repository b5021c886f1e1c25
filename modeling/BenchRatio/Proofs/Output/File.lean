import BenchRatio.Proofs.Output.Ends
import BenchRatio.Proofs.Store

/-!
# What writing a table to a file changes

* `writeFile_cases`: what is opened, and what is at the path afterwards.
* `writes_writeFile`: only the file and missing directories above it change, whatever goes wrong.
* `ends_writeFile`: how writing to a file ends.
* `writeFile_result`: a table of the right width is written, has an empty column, or the file cannot
  be written.
* `writeFile_ends`: **writing ends in four ways**, and what the file holds then.
-/

namespace BenchRatio.Table

open Store

theorem contents_buffered (node : Option Node) :
    (Outlet.buffered (deviceFor node)).contents = [] := by
  unfold deviceFor
  split <;> rfl

theorem writes_makeParent (s : Store) (p : Path) : Writes p s (makeParent s p).1 := by
  unfold makeParent
  split
  · exact .refl p s
  · next above habove => exact .of_builds habove (builds_makeDirs s above)

/-- Nothing is opened and nothing written, or the table goes to what the path leads to: to a device,
or to a file that holds its text and nothing else then. -/
theorem writeFile_cases (s : Store) (p : Path) (labels : List String) (rows : List RatioRow) :
    let parents := (makeParent s p).1
    let after := (writeFile s p labels rows).1
    let result := (writeFile s p labels rows).2
    (after = parents ∧ ∃ cause, result = .error (.unwritable p cause)) ∨
    (∃ o place refusal, after = parents ∧ after.locate p = .ok place ∧
      after.node? place = some (.device refusal) ∧
      result = (write o labels rows).2.mapError (atPath p)) ∨
    ∃ place, place ≠ [] ∧ after = parents.put place (.file (text labels rows)) ∧
      (parents.node? place = none ∨ ∃ old, parents.node? place = some (.file old)) ∧
      after.locate p = .ok place ∧
      result = (((Totals.start labels).observeAll rows).bind Totals.means).mapError (atPath p) := by
  unfold writeFile
  generalize makeParent s p = outcome
  obtain ⟨t, fault⟩ := outcome
  cases fault with
  | some cause => exact .inl ⟨rfl, cause, rfl⟩
  | none =>
    simp only []
    cases hcreate : t.create p with
    | error cause => exact .inl ⟨rfl, cause, rfl⟩
    | ok created =>
      obtain ⟨u, place⟩ := created
      simp only []
      rcases create_cases hcreate with
        ⟨rfl, refusal, hnode, hlocate⟩ | ⟨hne, rfl, hbefore, hlocate⟩
      · refine .inr (.inl ⟨_, place, refusal, ?_, ?_, ?_, rfl⟩)
        · simp only [settle, hnode]
        · simpa only [settle, hnode] using hlocate
        · simp only [settle, hnode]
      · -- A file takes the whole text, also if a row ends the writing early.
        obtain ⟨hreceived, hresult⟩ := write_of_room (contents_buffered (some (.file [])))
          (Device.hasRoom_unlimited (text labels rows).length)
        have hnode := node?_put_self t hne (.file [])
        simp only [hnode, settle, hreceived, put_put]
        exact .inr (.inr ⟨place, hne, rfl, hbefore, hlocate _, by rw [hresult]⟩)

/-- **Writing to a file changes nothing else.** Directories are made where nothing was, above the
path, and a file or nothing at the path becomes a file. -/
theorem writes_writeFile (s : Store) (p : Path) (labels : List String) (rows : List RatioRow) :
    Writes p s (writeFile s p labels rows).1 := by
  have hparent := writes_makeParent s p
  rcases writeFile_cases s p labels rows with
    ⟨hafter, -⟩ | ⟨-, -, -, hafter, -⟩ | ⟨place, hne, hafter, hbefore, hlocate, -⟩
  · rwa [hafter]
  · rwa [hafter]
  · rw [hafter] at hlocate ⊢
    exact hparent.put hne hbefore hlocate

/-- Writing to a file ends like writing to any outlet, with failures named after the file. -/
theorem ends_writeFile (s : Store) (p : Path) (labels : List String) (rows : List RatioRow) :
    Ends (Unwritable p) labels rows (goodRows labels.length rows)
      (writeFile s p labels rows).2 := by
  rcases writeFile_cases s p labels rows with
    ⟨-, cause, hfail⟩ | ⟨o, -, -, -, -, -, hresult⟩ | ⟨-, -, -, -, -, hresult⟩
  · rw [hfail]
    exact .failed ⟨cause, rfl⟩
  · rw [hresult]
    exact (ends_write o labels rows).atPath (unwritable_atPath p)
  · rw [hresult]
    exact (ends_totals OutputFailure labels rows).atPath (unwritable_atPath p)

/-- The outcome for a table whose rows all have the right width. -/
theorem writeFile_result (s : Store) (p : Path) {labels : List String} {rows : List RatioRow}
    (hwidth : ∀ row ∈ rows, row.ratios.length = labels.length) :
    let result := (writeFile s p labels rows).2
    (∃ summary, result = .ok summary) ∨ (∃ label, result = .error (.emptyColumn label)) ∨
      ∃ cause, result = .error (.unwritable p cause) := by
  intro result
  have hends : Ends (Unwritable p) labels rows _ result := ends_writeFile s p labels rows
  generalize goodRows labels.length rows = written, result = result at hends
  cases hends with
  | summary fit => exact .inl ⟨_, rfl⟩
  | emptyColumn fit => exact .inr (.inl ⟨_, rfl⟩)
  | widthMismatch fit wrong => exact absurd (hwidth _ (by simp)) wrong
  | failed failure =>
    obtain ⟨cause, rfl⟩ := failure
    exact .inr (.inr ⟨cause, rfl⟩)

/-- **Writing ends in four ways.** Every record that is written is as wide as the header, so no
outlet ever leads to a problem of ragged records: writing ends with a summary, an empty column, the
first row of the wrong width or a failure of the output, and on the way to a file this failure is
one of exactly that file. A device with room receives bytes that spell the header and the rows
before the first one of the wrong width, which are all rows if there is none, and does not fail. So,
unless the file could not be written, the path leads afterwards to a device or to a file that holds
just that. -/
theorem writeFile_ends (s : Store) (p : Path) (labels : List String) (rows : List RatioRow) :
    let after := (writeFile s p labels rows).1
    let result := (writeFile s p labels rows).2
    let written := rows.takeWhile fun row => row.ratios.length = labels.length
    let bytes := (header labels :: written.map record).flatMap (Record.encode .table)
    Spells labels written bytes ∧
    (∀ fields ∈ header labels :: written.map record, fields.length = labels.length + 1) ∧
    (∀ o : Outlet, let ended := (write o labels rows).2
      (∀ expected actual, ended ≠ .error (.ragged expected actual)) ∧
      Ends OutputFailure labels rows written ended ∧
      Ends (Unwritable p) labels rows written (ended.mapError (atPath p)) ∧
      (o.contents = [] → o.device.HasRoom bytes.length →
        (write o labels rows).1.received.toList = bytes ∧
        Ends (fun _ => False) labels rows written ended)) ∧
    Ends (Unwritable p) labels rows written result ∧
    ((∃ cause, result = .error (.unwritable p cause)) ∨ ∃ place, after.locate p = .ok place ∧
      ((∃ refusal, after.node? place = some (.device refusal)) ∨
        (after.node? place = some (.file bytes) ∧
          Ends (fun _ => False) labels rows written result))) := by
  intro after result written bytes
  refine ⟨spells_encode labels written, fun _ => length_of_mem_records, fun o => ?_,
    ends_writeFile s p labels rows, ?_⟩
  · intro ended
    have hends : Ends OutputFailure labels rows written ended := ends_write o labels rows
    refine ⟨hends.ne_ragged, hends, hends.atPath (unwritable_atPath p), fun hempty hroom => ?_⟩
    obtain ⟨hreceived, hended⟩ := write_of_room hempty hroom
    refine ⟨hreceived, ?_⟩
    rw [show ended = _ from hended]
    exact ends_totals _ labels rows
  · rcases writeFile_cases s p labels rows with
      ⟨-, hfail⟩ | ⟨-, place, refusal, -, hlocate, hnode, -⟩ |
        ⟨place, hne, hafter, -, hlocate, hresult⟩
    · exact .inl hfail
    · exact .inr ⟨place, hlocate, .inl ⟨refusal, hnode⟩⟩
    · refine .inr ⟨place, hlocate, .inr ⟨?_, ?_⟩⟩
      · exact (congrArg (node? · place) hafter).trans (node?_put_self _ hne _)
      · rw [show result = _ from hresult]
        exact (ends_totals (fun _ => False) labels rows).atPath fun _ => False.elim

end BenchRatio.Table
