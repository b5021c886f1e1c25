import BenchRatio.Proofs.Measurements.Reading
import BenchRatio.Proofs.Record.Complete

/-!
# Reading a stream that fails

A stream that fails is judged by its complete records. If one of them is bad, this is what reading
any longer stream reports too; if none is, the failure is reported, and the part of a record behind
them is neither accepted nor judged. One stream is read as if it had ended: a byte order mark with
nothing behind it.

* `read_of_error`: a bad record ends the reading, whatever follows it.
* `read_failing_cases`: what reading a failing stream gives.
* `exists_begins_of_firstBad`: the first bad record is complete.
* `read_interrupted`: **a failure neither hides a bad record nor makes one up**.
* `read_lone_mark`: a byte order mark and a failure are read as no measurements.
-/

namespace BenchRatio.Measurements

open Record

/-! ## A bad record ends the reading -/

theorem readRows_append_of_error {origin : String} {m : Measurements} {row : Nat} {rs : List Raw}
    {problem : Problem} (h : (readRows origin m row rs).result = .error problem)
    (more : List Raw) : readRows origin m row (rs ++ more) = readRows origin m row rs := by
  induction rs generalizing m row with
  | nil => cases h
  | cons r rs ih =>
    rw [List.cons_append]
    simp only [readRows] at h ⊢
    cases htext : text r with
    | error defect => rfl
    | ok fields =>
      rw [htext] at h
      simp only [] at h ⊢
      cases hrow : Record.row fields with
      | error defect => rfl
      | ok p =>
        rw [hrow] at h
        simp only [] at h ⊢
        rw [ih h]

theorem readRecords_append_of_error {origin : String} {rs : List Raw} {problem : Problem}
    (h : (readRecords origin rs).result = .error problem) (more : List Raw) :
    readRecords origin (rs ++ more) = readRecords origin rs := by
  cases rs with
  | nil => cases h
  | cons header rows =>
    rw [List.cons_append]
    simp only [readRecords] at h ⊢
    cases htext : text header with
    | error defect => rfl
    | ok fields =>
      rw [htext] at h
      exact readRows_append_of_error h more

/-- A bad record among complete ones ends the reading, whatever follows it and however the stream
ends. -/
theorem read_of_error {d : Dialect} {origin : String} {bytes : Bytes} {rs : List Raw}
    (hstart : rs <+: records d bytes) (hclosed : ∀ r ∈ rs, r.closed = true) {problem : Problem}
    (h : (readRecords origin rs).result = .error problem) (failure : Option Fault) :
    read d origin ⟨bytes, failure⟩ = readRecords origin rs := by
  obtain ⟨more, hmore⟩ := hstart
  unfold read
  simp only [← hmore]
  split
  · exact readRecords_append_of_error h more
  · next fault _ =>
    rw [List.filter_append, List.filter_eq_self.mpr hclosed, readRecords_append_of_error h]
    generalize readRecords origin rs = seen at h
    obtain ⟨notices, result⟩ := seen
    obtain rfl : result = .error problem := h
    rfl

/-! ## The outcome -/

theorem records_mark (d : Dialect) : records d byteOrderMark = [] :=
  recordsFrom_blank (by simp) 0 .start ⟨3, 1⟩

theorem number_of_isPrefix {d : Dialect} {bytes : Bytes} {rs : List Raw}
    (h : rs <+: records d bytes) {i : Nat} {r : Raw} (hr : rs[i]? = some r) : r.number = i := by
  obtain ⟨more, hmore⟩ := h
  have hi := (List.getElem?_eq_some_iff.mp hr).1
  exact number_records (by rw [← hmore, List.getElem?_append_left hi, hr])

/-- What reading a failing stream gives: nothing if it has delivered a byte order mark only, else
the failure or the first bad one of the complete records, and then so does every longer stream. -/
theorem read_failing_cases (d : Dialect) (origin : String) (delivered : Bytes) (fault : Fault) :
    let complete := (records d delivered).filter (·.closed)
    let seen := read d origin ⟨delivered, some fault⟩
    (delivered = byteOrderMark ∧ seen.result = .ok empty) ∨
      (delivered ≠ byteOrderMark ∧ AllGood complete ∧
        seen.result = .error (.streamFailed fault)) ∨
      ∃ i defect, FirstBad complete i defect ∧
        seen.result = .error (.badRow origin (i + 1) defect) ∧
        ∀ bytes failure, delivered <+: bytes → read d origin ⟨bytes, failure⟩ = seen := by
  intro complete seen
  have hlonger := closed_records_isPrefix d delivered
  have hself : complete <+: records d delivered := by simpa using hlonger []
  have hclosed : ∀ r ∈ complete, r.closed = true := fun r hr => (List.mem_filter.mp hr).2
  have hnumber : ∀ (i : Nat) (r : Raw), complete[i]? = some r → r.number = i :=
    fun i r hr => number_of_isPrefix hself hr
  have hne : ∀ r ∈ complete, r.fields ≠ [] := fun r hr =>
    fields_ne_nil_of_mem_records (List.mem_filter.mp hr).1
  rcases readRecords_cases origin hnumber hne with
    ⟨hgood, pairs, -, hok⟩ | ⟨i, defect, hbad, herr⟩
  · by_cases hmark : delivered = byteOrderMark
    · refine .inl ⟨hmark, ?_⟩
      simp only [seen, hmark, read, Stream.failureSeen, if_true, records_mark]
      rfl
    · refine .inr (.inl ⟨hmark, hgood, ?_⟩)
      simp only [seen, read, Stream.failureSeen, if_neg hmark]
      rw [hok]
      rfl
  · have hseen : seen = readRecords origin complete := read_of_error hself hclosed herr _
    refine .inr (.inr ⟨i, defect, hbad, hseen ▸ herr, ?_⟩)
    rintro bytes failure ⟨more, rfl⟩
    rw [hseen]
    exact read_of_error (hlonger more) hclosed herr failure

theorem exists_closed_of_begins {d : Dialect} {bytes : Bytes} {complete : List (List Bytes)}
    (h : Begins d bytes complete) {i : Nat} {fields : List Bytes}
    (hi : complete[i]? = some fields) :
    ∃ r, ((records d bytes).filter (·.closed))[i]? = some r ∧ r.fields = fields := by
  obtain ⟨more, hmore⟩ := begins_iff.mp h
  rw [← Option.map_eq_some_iff, ← List.getElem?_map, ← hmore,
    List.getElem?_append_left (List.getElem?_eq_some_iff.mp hi).1, hi]

/-- The first bad one of the scanner's closed records is complete, and so are the good ones before
it. -/
theorem exists_begins_of_firstBad {d : Dialect} {bytes : Bytes} {i : Nat} {defect : RowDefect}
    (h : FirstBad ((records d bytes).filter (·.closed)) i defect) :
    ∃ before bad start, Begins d bytes (before ++ [bad]) ∧ before.length = i ∧
      Defective i start bad defect ∧ ∀ j fields, before[j]? = some fields → ¬ Bad j fields := by
  obtain ⟨⟨r, hr, hdefect⟩, hbefore⟩ := h
  generalize hclosed : (records d bytes).filter (·.closed) = complete at *
  obtain ⟨hi, hget⟩ := List.getElem?_eq_some_iff.mp hr
  have hsplit : complete.take i ++ r :: complete.drop (i + 1) = complete := by
    rw [← hget, ← List.drop_eq_getElem_cons hi, List.take_append_drop]
  have hlength : (complete.take i).length = i := List.length_take_of_le (Nat.le_of_lt hi)
  refine ⟨(complete.take i).map (·.fields), r.fields, r.start, begins_iff.mpr ?_, ?_, hdefect, ?_⟩
  · refine ⟨(complete.drop (i + 1)).map (·.fields), ?_⟩
    conv_rhs => rw [hclosed, ← hsplit]
    simp
  · rw [List.length_map, hlength]
  · intro j fields hj
    rw [List.getElem?_map, Option.map_eq_some_iff] at hj
    obtain ⟨s, hs, rfl⟩ := hj
    have hlt : j < i := hlength ▸ (List.getElem?_eq_some_iff.mp hs).1
    exact hbefore j s hlt (by rwa [List.getElem?_take_of_lt hlt] at hs)

/-- **A failure neither hides a bad record nor makes one up.** Let a stream deliver the first `n`
bytes of some data and then fail. Records that are complete among these bytes are the first records
of the data. Reading gives measurements, which are none, exactly if a byte order mark and nothing
else was delivered; otherwise it gives the failure or a bad record. A bad record is complete and the
first bad one, and every stream that begins with these bytes, whether it ends or fails later, is
read with the same outcome and the same notices. If the failure is reported, no record that is
complete among these bytes is bad. -/
theorem read_interrupted (d : Dialect) (origin : String) (data : Bytes) (n : Nat) (fault : Fault) :
    let delivered := data.take n
    let seen := read d origin ⟨delivered, some fault⟩
    (∀ complete, Begins d delivered complete → complete <+: (records d data).map (·.fields)) ∧
    (∀ m, seen.result = .ok m ↔ delivered = byteOrderMark ∧ m = empty) ∧
    (∀ problem, seen.result = .error problem →
      problem = .streamFailed fault ∨ ∃ row defect, problem = .badRow origin row defect) ∧
    (∀ row defect, seen.result = .error (.badRow origin row defect) →
      (∃ before bad start, Begins d delivered (before ++ [bad]) ∧ row = before.length + 1 ∧
        Defective before.length start bad defect ∧
        ∀ i fields, before[i]? = some fields → ¬ Bad i fields) ∧
      ∀ bytes failure, delivered <+: bytes → read d origin ⟨bytes, failure⟩ = seen) ∧
    (seen.result = .error (.streamFailed fault) → ∀ complete, Begins d delivered complete →
      ∀ i fields, complete[i]? = some fields → ¬ Bad i fields) := by
  intro delivered seen
  refine ⟨fun complete hcomplete => ?_, ?_⟩
  · have hstart := hcomplete.isPrefix (data.drop n)
    rwa [List.take_append_drop] at hstart
  rcases read_failing_cases d origin delivered fault with
    ⟨hmark, hok⟩ | ⟨hmark, hgood, herr⟩ | ⟨i, defect, hbad, herr, hlonger⟩
  · have hresult : seen.result = .ok empty := hok
    rw [hresult]
    simp [hmark, eq_comm]
  · have hresult : seen.result = .error (.streamFailed fault) := herr
    rw [hresult]
    refine ⟨by simp [hmark], by simp, by simp, fun _ complete hcomplete i fields hi => ?_⟩
    obtain ⟨r, hr, rfl⟩ := exists_closed_of_begins hcomplete hi
    exact hgood i r hr
  · have hresult : seen.result = .error (.badRow origin (i + 1) defect) := herr
    rw [hresult]
    refine ⟨fun m => ⟨by simp, ?_⟩, by simp, fun row other hsame => ?_, by simp⟩
    · -- A byte order mark holds no record that could be bad.
      rintro ⟨hmark, -⟩
      obtain ⟨⟨r, hr, -⟩, -⟩ := hbad
      rw [hmark, records_mark] at hr
      cases hr
    · simp only [Except.error.injEq, Problem.badRow.injEq, true_and] at hsame
      obtain ⟨rfl, rfl⟩ := hsame
      obtain ⟨before, bad, start, hbegins, rfl, hdefect, hbefore⟩ := exists_begins_of_firstBad hbad
      exact ⟨⟨before, bad, start, hbegins, rfl, hdefect, hbefore⟩, hlonger⟩

/-- A byte order mark and a failure are read as no measurements. -/
theorem read_lone_mark :
    (read .results "in.csv" ⟨[0xEF, 0xBB, 0xBF], some (.other "read failed")⟩).result =
      .ok empty := by
  have hrecords := records_mark .results
  unfold byteOrderMark at hrecords
  unfold read
  rw [hrecords]
  rfl

end BenchRatio.Measurements
