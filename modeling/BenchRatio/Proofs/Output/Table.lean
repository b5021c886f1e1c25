import BenchRatio.Output.Table
import BenchRatio.Proofs.Output.Delivery
import BenchRatio.Proofs.Record.Forms
import BenchRatio.Proofs.Summary
import Mathlib.Data.List.TakeWhile

/-!
# What is written of a table

The header and the rows before the first one of the wrong width are written, while every row is
added to the totals. The records all have one width, so the sheet itself never objects.

* `Spells`, `spells_text`: the bytes of a header and rows, in one of the forms of a table.
* `Takes`: the bytes on their way and the result, or a device that is too small.
* `takes_send`, `takes_flush`: one record on its way, and the end.
* `sendRows_cases`, `sendAll_cases`: all rows, and a whole table.
* `write_cases`: **an outlet with room receives the table's text**, and the result is that of the
  totals.
* `result_of_write`, `means_of_write`: the result is that of the totals or a failure of the device,
  and a summary is that of the totals.
-/

namespace BenchRatio

/-! ## Records -/

theorem Sheet.send_eq {s : Sheet} {fields : List Bytes}
    (h : s.width.getD fields.length = fields.length) :
    s.send fields = (⟨(s.buffer.pushAll (Record.units .table fields)).1, some fields.length⟩,
      (s.buffer.pushAll (Record.units .table fields)).2.map .recordRefused) := by
  unfold send
  simp only [h, if_true]

namespace Table

/-- Bytes that spell a header with the labels and a record for each row: the benchmark's name, and
the ratios behind it. -/
def Spells (labels : List String) (rows : List RatioRow) (bytes : Bytes) : Prop :=
  Record.TableForm .table
    ((("benchmark" :: labels) :: rows.map fun row => row.benchmark :: row.ratios.map Ratio.text).map
      (·.map Utf8.encode)) bytes

theorem ne_nil_of_mem_records {labels : List String} {rows : List RatioRow} :
    ∀ fields ∈ header labels :: rows.map record, fields ≠ [] := by
  intro fields hfields
  rcases List.mem_cons.mp hfields with rfl | hfields
  · simp [header]
  · obtain ⟨row, -, rfl⟩ := List.mem_map.mp hfields
    simp [record]

theorem spells_encode (labels : List String) (rows : List RatioRow) :
    Spells labels rows ((header labels :: rows.map record).flatMap (Record.encode .table)) := by
  have hrecords : (("benchmark" :: labels) ::
      rows.map fun row => row.benchmark :: row.ratios.map Ratio.text).map (·.map Utf8.encode) =
      header labels :: rows.map record := by
    simp [header, record]
  rw [Spells, hrecords]
  exact Record.tableForm_encode ne_nil_of_mem_records

/-- All of `data` is on its way and the result is the expected one, or the device is too small and
says so. -/
def Takes {α : Type} (before : Buffer) (data : Bytes) (after : Buffer)
    (result expected : Except Problem α) : Prop :=
  after.outlet.device.room = before.outlet.device.room ∧
    ((result = expected ∧ after.contents = before.contents ++ data) ∨
      (¬ before.outlet.device.HasRoom (before.contents ++ data).length ∧
        after.contents <+: before.contents ++ data ∧
        ∃ cause, result = .error (.recordRefused cause) ∨ result = .error (.streamFailed cause)))

section Takes

variable {α : Type} {before between after : Buffer} {first second : Bytes}
  {result expected : Except Problem α}

/-- What was taken is followed by the rest. -/
theorem Takes.of_delivered (h1 : before.Delivers first (between, none))
    (h2 : Takes between second after result expected) :
    Takes before (first ++ second) after result expected := by
  obtain ⟨hroom, hrest⟩ := h2
  have htaken : between.contents = before.contents ++ first := h1.taken rfl
  refine ⟨hroom.trans h1.room, ?_⟩
  rw [← List.append_assoc, ← htaken]
  refine hrest.imp id ?_
  rintro ⟨hfull, hprefix, hcause⟩
  exact ⟨fun hfits => hfull (hfits.mono (Nat.le_refl _) h1.room), hprefix, hcause⟩

/-- The rest is not even tried after a refusal. -/
theorem Takes.of_refused {cause : Fault} (h : before.Delivers first (after, some cause)) :
    Takes before (first ++ second) after (.error (.recordRefused cause)) expected := by
  refine ⟨h.room, .inr ⟨fun hfits => ?_, ?_, cause, .inl rfl⟩⟩
  · have := h.accepted (hfits.mono (by simp) rfl)
    cases this
  · rw [← List.append_assoc]
    exact h.refused.trans (List.prefix_append _ _)

end Takes

/-- A record on its way, with what is done after it. -/
theorem takes_send {α : Type} {s : Sheet} {fields : List Bytes} {data : Bytes}
    {expected : Except Problem α} (h : s.width.getD fields.length = fields.length)
    {next : Sheet → Sheet × Except Problem α}
    (hnext : ∀ t : Sheet, t.width = some fields.length →
      Takes t.buffer data (next t).1.buffer (next t).2 expected) :
    let outcome : Sheet × Except Problem α := match s.send fields with
      | (t, some problem) => (t, .error problem)
      | (t, none) => next t
    Takes s.buffer (Record.encode .table fields ++ data) outcome.1.buffer outcome.2 expected := by
  have hpush := Buffer.delivers_pushAll s.buffer (Record.units .table fields)
  change Buffer.Delivers _ (Record.encode .table fields) _ at hpush
  rw [Sheet.send_eq h]
  generalize s.buffer.pushAll (Record.units .table fields) = outcome at *
  obtain ⟨b, fault⟩ := outcome
  cases fault with
  | some cause => exact .of_refused hpush
  | none => exact .of_delivered hpush (hnext ⟨b, some fields.length⟩ rfl)

/-- Everything sent on after the last row, and the means. -/
theorem takes_flush {before : Buffer} {data : Bytes} {sent : Sheet × Except Problem Totals}
    {expected : Except Problem Totals} :
    let outcome : Sheet × Except Problem Summary := match sent with
      | (s, .error problem) => (s, .error problem)
      | (s, .ok totals) =>
        match s.flush with
        | (s, some problem) => (s, .error problem)
        | (s, none) => (s, totals.means)
    Takes before data sent.1.buffer sent.2 expected →
      Takes before data outcome.1.buffer outcome.2 (expected.bind Totals.means) := by
  obtain ⟨s, result⟩ := sent
  intro outcome h
  obtain ⟨hroom, ⟨rfl, hcontents⟩ | ⟨hfull, hprefix, cause, rfl | rfl⟩⟩ := h
  · cases result with
    | error problem => exact ⟨hroom, .inl ⟨rfl, hcontents⟩⟩
    | ok totals =>
      obtain ⟨hflush, -⟩ := Buffer.delivers_flush s.buffer
      simp only [outcome, Sheet.flush] at hcontents ⊢
      clear outcome
      generalize s.buffer.flush = flushed at *
      obtain ⟨b, fault⟩ := flushed
      cases fault with
      | none =>
        refine ⟨hflush.room.trans hroom, .inl ⟨rfl, ?_⟩⟩
        rw [← hcontents, ← List.append_nil s.buffer.contents]
        exact hflush.taken rfl
      | some cause =>
        refine ⟨hflush.room.trans hroom, .inr ⟨fun hfits => ?_, ?_, cause, .inr rfl⟩⟩
        · rw [← hcontents] at hfits
          have := hflush.accepted (hfits.mono (by simp) hroom)
          cases this
        · rw [← hcontents, ← List.append_nil s.buffer.contents]
          exact hflush.refused
  · exact ⟨hroom, .inr ⟨hfull, hprefix, cause, .inl rfl⟩⟩
  · exact ⟨hroom, .inr ⟨hfull, hprefix, cause, .inr rfl⟩⟩

/-- The rows that are written. -/
def goodRows (width : Nat) (rows : List RatioRow) : List RatioRow :=
  rows.takeWhile fun row => row.ratios.length = width

theorem goodRows_eq {width : Nat} {rows : List RatioRow}
    (h : ∀ row ∈ rows, row.ratios.length = width) : goodRows width rows = rows :=
  List.takeWhile_eq_self_iff.mpr fun row hrow => by simpa using h row hrow

theorem text_eq (labels : List String) (rows : List RatioRow) :
    text labels rows = Record.encode .table (header labels) ++
      (goodRows labels.length rows).flatMap fun row => Record.encode .table (record row) := by
  rw [text, List.flatMap_cons, List.flatMap_map]
  rfl

theorem spells_text (labels : List String) (rows : List RatioRow) :
    Spells labels (goodRows labels.length rows) (text labels rows) :=
  spells_encode labels _

/-- Rows are added and written together. -/
theorem sendRows_cases {width : Nat} {s : Sheet} {t : Totals} (hs : s.width = some (width + 1))
    (ht : t.columns.length = width) (rows : List RatioRow) :
    Takes s.buffer ((goodRows width rows).flatMap fun row => Record.encode .table (record row))
      (sendRows s t rows).1.buffer (sendRows s t rows).2 (t.observeAll rows) := by
  induction rows generalizing s t with
  | nil => exact ⟨rfl, .inl ⟨rfl, (List.append_nil _).symm⟩⟩
  | cons row rows ih =>
    by_cases hrow : row.ratios.length = width
    · have hgood : goodRows width (row :: rows) = row :: goodRows width rows :=
        List.takeWhile_cons_of_pos (by simpa using hrow)
      have hobserve := Totals.observe_of_length (hrow.trans ht.symm)
      have hlen := Totals.length_zipWith_add (hrow.trans ht.symm)
      have hfields : (record row).length = width + 1 := by simp [record, hrow]
      have hwidth : s.width.getD (record row).length = (record row).length := by
        rw [hs, hfields]
        rfl
      rw [hgood, List.flatMap_cons, Totals.observeAll_cons, hobserve, sendRows, hobserve]
      exact takes_send hwidth fun s' hs' => ih (hs'.trans (congrArg some hfields)) (hlen.trans ht)
    · have hgood : goodRows width (row :: rows) = [] :=
        List.takeWhile_cons_of_neg (by simpa using hrow)
      have hobserve : t.observe row =
          .error (.widthMismatch row.benchmark t.columns.length row.ratios.length) :=
        if_neg (by omega)
      rw [hgood, Totals.observeAll_cons, sendRows, hobserve]
      exact ⟨rfl, .inl ⟨rfl, (List.append_nil _).symm⟩⟩

theorem sendAll_cases (o : Outlet) (labels : List String) (rows : List RatioRow) :
    Takes (.new o) (text labels rows) (sendAll (.new o) labels rows).1.buffer
      (sendAll (.new o) labels rows).2
      (((Totals.start labels).observeAll rows).bind Totals.means) := by
  have hlength : (header labels).length = labels.length + 1 := by simp [header]
  rw [text_eq]
  unfold sendAll
  refine takes_send rfl fun s hs => takes_flush ?_
  exact sendRows_cases (hs.trans (congrArg some hlength)) (Totals.length_start labels) rows

/-- **Writing.** What the device receives is a start of the table's text, and the result is that of
the totals unless the device is too small for the text. A device with room receives all of it, also
when the totals have no means. -/
theorem write_cases {o : Outlet} (ho : o.contents = []) (labels : List String)
    (rows : List RatioRow) :
    let received := (write o labels rows).1.received.toList
    let result := (write o labels rows).2
    received <+: text labels rows ∧
      ((result = ((Totals.start labels).observeAll rows).bind Totals.means ∧
          (o.device.HasRoom (text labels rows).length → received = text labels rows)) ∨
        ¬ o.device.HasRoom (text labels rows).length ∧
          ∃ cause, result = .error (.recordRefused cause) ∨
            result = .error (.streamFailed cause)) := by
  have hempty : (Buffer.new o).contents = [] := by simp [Buffer.new, Buffer.contents, ho]
  obtain ⟨hroom, hcases⟩ := sendAll_cases o labels rows
  rw [hempty, List.nil_append] at hcases
  unfold write
  generalize sendAll (.new o) labels rows = outcome at *
  obtain ⟨sheet, result⟩ := outcome
  simp only [] at *
  -- Giving up the sheet sends on what it still holds, or some of it.
  have hclose : sheet.buffer.close.received.toList <+: sheet.buffer.contents := by
    obtain ⟨hflush, -⟩ := Buffer.delivers_flush sheet.buffer
    have hkept := hflush.refused
    rw [List.append_nil] at hkept
    refine List.IsPrefix.trans ?_ hkept
    rw [Buffer.close, Buffer.contents, Outlet.contents, List.append_assoc]
    exact List.prefix_append _ _
  rcases hcases with ⟨hresult, hcontents⟩ | ⟨hfull, hprefix, hcause⟩
  · rw [hcontents] at hclose
    refine ⟨hclose, .inl ⟨hresult, fun hfits => ?_⟩⟩
    rw [← hcontents]
    exact Buffer.received_close (hfits.mono (Nat.le_of_eq (by rw [hcontents])) hroom)
  · exact ⟨hclose.trans hprefix, .inr ⟨hfull, hcause⟩⟩

/-- The result is that of the totals, wherever the table goes, or a failure of the device. -/
theorem result_of_write (o : Outlet) (labels : List String) (rows : List RatioRow) :
    (write o labels rows).2 = ((Totals.start labels).observeAll rows).bind Totals.means ∨
      ∃ cause, (write o labels rows).2 = .error (.recordRefused cause) ∨
        (write o labels rows).2 = .error (.streamFailed cause) := by
  obtain ⟨-, ⟨hresult, -⟩ | ⟨-, -, hcause⟩⟩ := sendAll_cases o labels rows
  · exact .inl hresult
  · exact .inr hcause

theorem means_of_write {o : Outlet} {labels : List String} {rows : List RatioRow}
    {summary : Summary} (h : (write o labels rows).2 = .ok summary) :
    ((Totals.start labels).observeAll rows).bind Totals.means = .ok summary := by
  rcases result_of_write o labels rows with hresult | ⟨cause, hfail | hfail⟩
  · exact hresult.symm.trans h
  · rw [hfail] at h
    cases h
  · rw [hfail] at h
    cases h

/-- A device with room receives the table's text, and the totals decide. -/
theorem write_of_room {o : Outlet} (ho : o.contents = []) {labels : List String}
    {rows : List RatioRow} (hroom : o.device.HasRoom (text labels rows).length) :
    (write o labels rows).1.received.toList = text labels rows ∧
      (write o labels rows).2 = ((Totals.start labels).observeAll rows).bind Totals.means := by
  obtain ⟨-, ⟨hresult, hreceived⟩ | ⟨hfull, -⟩⟩ := write_cases ho labels rows
  · exact ⟨hreceived hroom, hresult⟩
  · exact absurd hroom hfull

theorem write_unlimited (labels : List String) (rows : List RatioRow) :
    (write (.direct .unlimited) labels rows).1.received.toList = text labels rows ∧
      (write (.direct .unlimited) labels rows).2 =
        ((Totals.start labels).observeAll rows).bind Totals.means :=
  write_of_room rfl (Device.hasRoom_unlimited _)

end Table

end BenchRatio
