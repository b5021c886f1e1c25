import BenchRatio.Proofs.Output.Table

/-!
# Writing to a device with limited room

A device never holds more than it has room for, and a summary is taken only after everything has
arrived. So a device too small for a table cannot pass for one that has received it.

* `invariant_sendAll`: what every single write to a device keeps, a whole table keeps.
* `received_sendAll`: when the means are taken, everything has arrived.
* `write_limited`: **a table is never cut off in silence**.
-/

namespace BenchRatio

theorem Device.hasRoom_limited_iff (room : Nat) (fault : Fault) (size : Nat) :
    (limited room fault).HasRoom size ↔ size ≤ room := by
  constructor
  · intro h
    exact h room rfl
  · intro h other hother
    obtain rfl := Option.some.inj hother
    exact h

/-- A write fits into the room or does not happen. -/
theorem Device.hasRoom_write {d : Device} (h : d.HasRoom d.received.size) (chunk : Array UInt8) :
    (d.write chunk).1.HasRoom (d.write chunk).1.received.size := by
  unfold Device.write
  by_cases hempty : chunk.size = 0
  · rwa [if_pos hempty]
  · rw [if_neg hempty]
    by_cases hfits : d.fits chunk
    · rw [if_pos hfits]
      intro room hroom
      unfold Device.fits at hfits
      rw [show d.room = some room from hroom] at hfits
      simpa using hfits
    · rwa [if_neg hfits]

/-! ## What every write keeps -/

section Invariant

variable {P : Device → Prop} (hP : ∀ d chunk, P d → P (d.write chunk).1)

include hP

namespace Outlet

theorem invariant_flush {o : Outlet} (h : P o.device) : P o.flush.1.device := by
  unfold flush
  cases o.held with
  | none => exact h
  | some held =>
    have hwrite := hP o.device held h
    simp only []
    split
    · next heq => rwa [heq] at hwrite
    · next heq => rwa [heq] at hwrite

theorem invariant_settle {o : Outlet} (chunk : Array UInt8) (h : P o.device) :
    P (o.settle chunk).1.device := by
  have hwrite := hP o.device chunk h
  unfold settle
  cases o.held with
  | none => exact hwrite
  | some held =>
    simp only []
    split
    · exact h
    · exact hwrite

theorem invariant_send {o : Outlet} (chunk : Array UInt8) (h : P o.device) :
    P (o.send chunk).1.device := by
  unfold send
  cases o.held with
  | none => exact invariant_settle hP chunk h
  | some held =>
    simp only []
    split
    · exact invariant_settle hP chunk h
    · have hflush := invariant_flush hP h
      split
      · next heq => rwa [heq] at hflush
      · next heq =>
        rw [heq] at hflush
        exact invariant_settle hP chunk hflush

end Outlet

namespace Buffer

theorem invariant_spill {b : Buffer} (h : P b.outlet.device) : P b.spill.1.outlet.device := by
  have hsend := Outlet.invariant_send hP b.pending h
  unfold spill
  split
  · next heq => rwa [heq] at hsend
  · next heq => rwa [heq] at hsend

theorem invariant_push {b : Buffer} (unit : Bytes) (h : P b.outlet.device) :
    P (b.push unit).1.outlet.device := by
  unfold push
  split
  · exact h
  · have hspill := invariant_spill hP h
    split
    · next heq => rwa [heq] at hspill
    · next heq => rwa [heq] at hspill

theorem invariant_pushAll {b : Buffer} (units : List Bytes) (h : P b.outlet.device) :
    P (b.pushAll units).1.outlet.device := by
  induction units generalizing b with
  | nil => exact h
  | cons unit units ih =>
    have hpush := invariant_push hP unit h
    rw [pushAll]
    split
    · next heq => rwa [heq] at hpush
    · next heq =>
      rw [heq] at hpush
      exact ih hpush

theorem invariant_flush {b : Buffer} (h : P b.outlet.device) : P b.flush.1.outlet.device := by
  have hspill := invariant_spill hP h
  unfold flush
  split
  · next heq => rwa [heq] at hspill
  · next heq =>
    rw [heq] at hspill
    exact Outlet.invariant_flush hP hspill

end Buffer

namespace Table

theorem invariant_send {s : Sheet} (fields : List Bytes) (h : P s.buffer.outlet.device) :
    P (s.send fields).1.buffer.outlet.device := by
  unfold Sheet.send
  simp only []
  split
  · exact Buffer.invariant_pushAll hP _ h
  · exact h

theorem invariant_sendRows {s : Sheet} (t : Totals) (rows : List RatioRow)
    (h : P s.buffer.outlet.device) : P (sendRows s t rows).1.buffer.outlet.device := by
  induction rows generalizing s t with
  | nil => exact h
  | cons row rows ih =>
    rw [sendRows]
    split
    · exact h
    · have hsend := invariant_send hP (record row) h
      split
      · next heq => rwa [heq] at hsend
      · next heq =>
        rw [heq] at hsend
        exact ih _ hsend

/-- What every single write to a device keeps, a whole table keeps. -/
theorem invariant_sendAll {s : Sheet} (labels : List String) (rows : List RatioRow)
    (h : P s.buffer.outlet.device) : P (sendAll s labels rows).1.buffer.outlet.device := by
  have hheader := invariant_send hP (header labels) h
  unfold sendAll
  split
  · next heq => rwa [heq] at hheader
  · next heq =>
    rw [heq] at hheader
    have hrows := invariant_sendRows hP (.start labels) rows hheader
    split
    · next heq => rwa [heq] at hrows
    · next s' _ heq =>
      rw [heq] at hrows
      have hflush : P s'.flush.1.buffer.outlet.device := Buffer.invariant_flush hP hrows
      split
      · next heq => rwa [heq] at hflush
      · next heq => rwa [heq] at hflush

end Table

end Invariant

namespace Table

/-! ## What has arrived when the means are taken -/

theorem send_ne_emptyColumn (s : Sheet) (fields : List Bytes) (label : String) :
    (s.send fields).2 ≠ some (.emptyColumn label) := by
  unfold Sheet.send
  simp only []
  split
  · cases (s.buffer.pushAll (Record.units .table fields)).2 <;> simp
  · simp

theorem sendRows_ne_emptyColumn (s : Sheet) (t : Totals) (rows : List RatioRow) (label : String) :
    (sendRows s t rows).2 ≠ .error (.emptyColumn label) := by
  induction rows generalizing s t with
  | nil => simp [sendRows]
  | cons row rows ih =>
    rw [sendRows]
    split
    · next problem heq =>
      unfold Totals.observe at heq
      split at heq
      · cases heq
      · cases heq
        simp
    · have hsend := send_ne_emptyColumn s (record row) label
      split
      · next heq =>
        rw [heq] at hsend
        simpa using hsend
      · exact ih _ _

/-- The means are taken after everything has arrived. -/
theorem received_sendAll {s : Sheet} {labels : List String} {rows : List RatioRow}
    (h : (∃ summary, (sendAll s labels rows).2 = .ok summary) ∨
      ∃ label, (sendAll s labels rows).2 = .error (.emptyColumn label)) :
    (sendAll s labels rows).1.buffer.outlet.device.received.toList =
      (sendAll s labels rows).1.buffer.contents := by
  unfold sendAll at h ⊢
  split
  · next problem heq =>
    rw [heq] at h
    rcases h with ⟨_, h⟩ | ⟨label, h⟩
    · cases h
    · cases h
      exact absurd (congrArg Prod.snd heq) (send_ne_emptyColumn s _ label)
  · next t heq =>
    rw [heq] at h
    simp only [] at h ⊢
    split
    · next problem hrows =>
      rw [hrows] at h
      rcases h with ⟨_, h⟩ | ⟨label, h⟩
      · cases h
      · cases h
        exact absurd (congrArg Prod.snd hrows) (sendRows_ne_emptyColumn t _ _ label)
    · next u totals hrows =>
      rw [hrows] at h
      obtain ⟨hflush, hreceived⟩ := Buffer.delivers_flush u.buffer
      simp only [Sheet.flush] at h ⊢
      generalize u.buffer.flush = flushed at *
      obtain ⟨b, fault⟩ := flushed
      cases fault with
      | some cause => simp at h
      | none =>
        have hkept := hflush.taken rfl
        rw [List.append_nil] at hkept
        exact (hreceived rfl).trans hkept.symm

/-! ## Limited room -/

/-- The means of a table are taken only if the device has room for all of it. -/
theorem hasRoom_of_means {o : Outlet} (ho : o.contents = [])
    (hroom : o.device.HasRoom o.device.received.size) {labels : List String} {rows : List RatioRow}
    (h : (∃ summary, (write o labels rows).2 = .ok summary) ∨
      ∃ label, (write o labels rows).2 = .error (.emptyColumn label)) :
    o.device.HasRoom (text labels rows).length := by
  change (∃ summary, (sendAll (.new o) labels rows).2 = .ok summary) ∨
    ∃ label, (sendAll (.new o) labels rows).2 = .error (.emptyColumn label) at h
  have harrived := received_sendAll h
  have hkept := invariant_sendAll (P := fun d => d.HasRoom d.received.size) (s := .new o)
    (fun _ chunk hd => Device.hasRoom_write hd chunk) labels rows hroom
  obtain ⟨hdevice, ⟨-, hcontents⟩ | ⟨-, -, cause, hfail | hfail⟩⟩ := sendAll_cases o labels rows
  · have hempty : (Buffer.new o).contents = [] := by simp [Buffer.new, Buffer.contents, ho]
    rw [hempty, List.nil_append] at hcontents
    rw [hcontents] at harrived
    refine hkept.mono (Nat.le_of_eq ?_) hdevice.symm
    rw [← harrived, Array.length_toList]
  · rw [hfail] at h
    simp at h
  · rw [hfail] at h
    simp at h

/-- **No silent truncation.** Let a device take at most `room` bytes and refuse any write beyond
that. What it has in the end is always a start of the table's text, which spells the header and the
rows before the first one of the wrong width. If the text fits, result and bytes are those of a
device that takes everything, and these are all of the text with a summary, a column without a ratio
or that row. If the text does not fit, the result is a failure of the output, or such a row is
reported. -/
theorem write_limited (labels : List String) (rows : List RatioRow) (room : Nat) (fault : Fault) :
    let limited := write (.direct (.limited room fault)) labels rows
    let unlimited := write (.direct .unlimited) labels rows
    let firstWrong (result : Except Problem Summary) := ∃ good row rest,
      rows = good ++ row :: rest ∧ (∀ r ∈ good, r.ratios.length = labels.length) ∧
        row.ratios.length ≠ labels.length ∧
        result = .error (.widthMismatch row.benchmark labels.length row.ratios.length)
    Spells labels (rows.takeWhile fun row => row.ratios.length = labels.length)
        (text labels rows) ∧
      limited.1.received.toList <+: text labels rows ∧
      ((text labels rows).length ≤ room → limited.2 = unlimited.2 ∧
        limited.1.received.toList = text labels rows ∧
        unlimited.1.received.toList = text labels rows ∧
        ((∃ summary, unlimited.2 = .ok summary) ∨
          (∃ label, unlimited.2 = .error (.emptyColumn label)) ∨ firstWrong unlimited.2)) ∧
      (room < (text labels rows).length →
        (∃ cause, limited.2 = .error (.recordRefused cause) ∨
          limited.2 = .error (.streamFailed cause)) ∨ firstWrong limited.2) := by
  intro limited unlimited firstWrong
  obtain ⟨hunlimited, hexpected⟩ := write_unlimited labels rows
  obtain ⟨hreceived, hcases⟩ :=
    write_cases (o := .direct (.limited room fault)) rfl labels rows
  have hkinds := Totals.outcome_cases labels rows
  simp only [] at hcases hkinds
  have hfits := Device.hasRoom_limited_iff room fault (text labels rows).length
  refine ⟨spells_text labels rows, hreceived, fun hle => ?_, fun hlt => ?_⟩
  · rcases hcases with ⟨hresult, hall⟩ | ⟨hfull, -⟩
    · refine ⟨hresult.trans hexpected.symm, hall (hfits.mpr hle), hunlimited, ?_⟩
      rw [← hexpected] at hkinds
      exact hkinds.elim (fun h => h.2.imp id .inl) fun h => .inr (.inr h)
    · exact absurd (hfits.mpr hle) hfull
  · rcases hcases with ⟨hresult, -⟩ | ⟨-, hcause⟩
    · rw [← hresult] at hkinds
      have hfull : ¬ (Outlet.direct (.limited room fault)).device.HasRoom
          (text labels rows).length := fun h => Nat.not_le_of_lt hlt (hfits.mp h)
      have hstart : (Outlet.direct (.limited room fault)).device.HasRoom 0 :=
        fun _ _ => Nat.zero_le _
      -- If the means were taken, everything would have arrived.
      rcases hkinds with ⟨-, hok | hempty⟩ | hwrong
      · exact absurd (hasRoom_of_means rfl hstart (.inl hok)) hfull
      · exact absurd (hasRoom_of_means rfl hstart (.inr hempty)) hfull
      · exact .inr hwrong
    · exact .inl hcause

end Table

end BenchRatio
