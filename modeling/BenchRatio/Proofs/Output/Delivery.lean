import BenchRatio.Output.Device

/-!
# No byte is lost on the way

At every moment the bytes that have arrived, those an outlet holds back and those still pending make
up, in this order, everything that was taken. A refusal takes nothing and loses nothing, and there
is none as long as the device has room for all of it.

* `Outlet.contents`, `Buffer.contents`: what was taken so far.
* `Delivers`: the outcome of a step that takes some bytes or refuses them.
* `delivers_pushAll`: units are taken in order.
* `received_flush`, `received_close`: after a flush without a refusal everything has arrived.
-/

namespace BenchRatio

/-! ## Devices -/

/-- The device can hold so many bytes. -/
def Device.HasRoom (d : Device) (size : Nat) : Prop := ∀ room, d.room = some room → size ≤ room

theorem Device.hasRoom_unlimited (size : Nat) : Device.unlimited.HasRoom size := by
  intro room h
  cases h

theorem Device.HasRoom.mono {d d' : Device} {m n : Nat} (h : d.HasRoom n) (hmn : m ≤ n)
    (hroom : d'.room = d.room) : d'.HasRoom m :=
  fun room hd => Nat.le_trans hmn (h room (hroom ▸ hd))

/-- A chunk arrives, or the device stays as it is. -/
theorem Device.write_cases (d : Device) (chunk : Array UInt8) :
    (d.write chunk = ({ d with received := d.received ++ chunk }, none)) ∨
      (d.write chunk = (d, some d.fault) ∧ ¬ d.HasRoom (d.received.size + chunk.size)) := by
  unfold Device.write
  by_cases hempty : chunk.size = 0
  · left
    rw [if_pos hempty]
    have : chunk = #[] := Array.eq_empty_of_size_eq_zero hempty
    simp [this]
  · rw [if_neg hempty]
    by_cases hfits : d.fits chunk
    · rw [if_pos hfits]
      exact .inl rfl
    · rw [if_neg hfits]
      refine .inr ⟨rfl, fun hroom => hfits ?_⟩
      unfold Device.fits
      cases h : d.room with
      | none => rfl
      | some room => simpa using hroom room h

/-! ## Outlets -/

namespace Outlet

/-- The bytes that have arrived and those that are held back. -/
def contents (o : Outlet) : Bytes := o.device.received.toList ++ (o.held.getD #[]).toList

/-- The outcome of a step that takes some bytes: they are added behind the others, or they are
refused and nothing changes. They are not refused if the device has room for everything. -/
structure Delivers (o : Outlet) (data : Bytes) (outcome : Outlet × Option Fault) : Prop where
  taken : outcome.2 = none → outcome.1.contents = o.contents ++ data
  refused : outcome.2 ≠ none → outcome.1.contents = o.contents
  room : outcome.1.device.room = o.device.room
  accepted : o.device.HasRoom (o.contents ++ data).length → outcome.2 = none

theorem delivers_flush (o : Outlet) :
    o.Delivers [] o.flush ∧ (o.flush.2 = none → o.flush.1.held.getD #[] = #[]) := by
  obtain ⟨device, held⟩ := o
  cases held with
  | none => exact ⟨⟨by simp [flush], by simp [flush], rfl, fun _ => rfl⟩, fun _ => rfl⟩
  | some held =>
    rcases device.write_cases held with h | ⟨h, hroom⟩
    · have hflush : flush ⟨device, some held⟩ =
          (⟨{ device with received := device.received ++ held }, some #[]⟩, none) := by
        simp [flush, h]
      rw [hflush]
      refine ⟨⟨fun _ => ?_, fun hne => absurd rfl hne, rfl, fun _ => rfl⟩, fun _ => rfl⟩
      simp [contents]
    · have hflush : flush ⟨device, some held⟩ = (⟨device, some held⟩, some device.fault) := by
        simp [flush, h]
      rw [hflush]
      refine ⟨⟨fun hne => (by cases hne), fun _ => rfl, rfl, fun hfits => ?_⟩,
        fun hne => (by cases hne)⟩
      exact absurd (by simpa [contents] using hfits) hroom

/-- A chunk that passes the buffer by does not overtake bytes that are held back. -/
theorem delivers_settle (o : Outlet) (chunk : Array UInt8)
    (h : chunk.size < bufferCapacity ∨ o.held.getD #[] = #[]) :
    o.Delivers chunk.toList (o.settle chunk) := by
  obtain ⟨device, held⟩ := o
  have written : (held.getD #[] = #[]) →
      Delivers ⟨device, held⟩ chunk.toList
        (⟨(device.write chunk).1, held⟩, (device.write chunk).2) := by
    intro hheld
    rcases device.write_cases chunk with hw | ⟨hw, hroom⟩
    · rw [hw]
      refine ⟨fun _ => ?_, fun hne => absurd rfl hne, rfl, fun _ => rfl⟩
      simp [contents, hheld]
    · rw [hw]
      refine ⟨fun hne => (by cases hne), fun _ => rfl, rfl, fun hfits => ?_⟩
      exact absurd (by simpa [contents, hheld] using hfits) hroom
  cases held with
  | none => exact written rfl
  | some held =>
    unfold settle
    by_cases hsmall : chunk.size < bufferCapacity
    · simp only [if_pos hsmall]
      refine ⟨fun _ => ?_, fun hne => absurd rfl hne, rfl, fun _ => rfl⟩
      simp [contents]
    · simp only [if_neg hsmall]
      exact written (h.resolve_left hsmall)

theorem Delivers.trans {o : Outlet} {first second : Bytes} {o' : Outlet}
    {outcome : Outlet × Option Fault} (h1 : o.Delivers first (o', none))
    (h2 : o'.Delivers second outcome) (hfirst : first = [] ∨ outcome.2 = none) :
    o.Delivers (first ++ second) outcome := by
  have hcontents := h1.taken rfl
  refine ⟨fun hnone => ?_, fun hsome => ?_, h2.room.trans h1.room, fun hfits => ?_⟩
  · rw [h2.taken hnone, hcontents, List.append_assoc]
  · rw [h2.refused hsome, hcontents, hfirst.resolve_right hsome, List.append_nil]
  · refine h2.accepted (hfits.mono (Nat.le_of_eq ?_) h1.room)
    rw [hcontents, List.append_assoc]

theorem delivers_send (o : Outlet) (chunk : Array UInt8) :
    o.Delivers chunk.toList (o.send chunk) := by
  unfold send
  cases hheld : o.held with
  | none => exact delivers_settle o chunk (.inr (by simp [hheld]))
  | some held =>
    simp only []
    by_cases hsmall : held.size + chunk.size ≤ bufferCapacity
    · rw [if_pos hsmall]
      refine delivers_settle o chunk ?_
      by_cases hzero : held.size = 0
      · exact .inr (by rw [hheld]; exact Array.eq_empty_of_size_eq_zero hzero)
      · exact .inl (by omega)
    · rw [if_neg hsmall]
      obtain ⟨hflush, hempty⟩ := delivers_flush o
      generalize o.flush = outcome at *
      obtain ⟨o', fault⟩ := outcome
      cases fault with
      | none => exact hflush.trans (delivers_settle o' chunk (.inr (hempty rfl))) (.inl rfl)
      | some fault =>
        refine ⟨fun hne => (by cases hne), hflush.refused, hflush.room, fun hfits => ?_⟩
        have := hflush.accepted (hfits.mono (by simp) rfl)
        cases this

end Outlet

/-! ## Buffers -/

namespace Buffer

/-- The bytes that have left for the outlet and those that are pending. -/
def contents (b : Buffer) : Bytes := b.outlet.contents ++ b.pending.toList

/-- The same as for an outlet. -/
structure Delivers (b : Buffer) (data : Bytes) (outcome : Buffer × Option Fault) : Prop where
  taken : outcome.2 = none → outcome.1.contents = b.contents ++ data
  /-- Of several units, those before the refused one were taken. -/
  refused : outcome.1.contents <+: b.contents ++ data
  room : outcome.1.outlet.device.room = b.outlet.device.room
  accepted : b.outlet.device.HasRoom (b.contents ++ data).length → outcome.2 = none

theorem Delivers.of_contents_eq {b : Buffer} {outcome : Buffer × Option Fault}
    (hcontents : outcome.1.contents = b.contents)
    (hroom : outcome.1.outlet.device.room = b.outlet.device.room)
    (haccepted : b.outlet.device.HasRoom b.contents.length → outcome.2 = none) :
    b.Delivers [] outcome :=
  ⟨fun _ => by rw [hcontents, List.append_nil],
    ⟨[], by rw [hcontents, List.append_nil]⟩, hroom,
    fun hfits => haccepted (by rwa [List.append_nil] at hfits)⟩

theorem Delivers.trans {b b' : Buffer} {first second : Bytes} {outcome : Buffer × Option Fault}
    (h1 : b.Delivers first (b', none)) (h2 : b'.Delivers second outcome) :
    b.Delivers (first ++ second) outcome := by
  have hcontents := h1.taken rfl
  simp only [] at hcontents
  refine ⟨fun hnone => ?_, ?_, h2.room.trans h1.room, fun hfits => h2.accepted ?_⟩
  · rw [h2.taken hnone, hcontents, List.append_assoc]
  · rw [← List.append_assoc, ← hcontents]
    exact h2.refused
  · refine hfits.mono (Nat.le_of_eq ?_) h1.room
    rw [hcontents, List.append_assoc]

/-- What was refused has been refused behind the first part already. -/
theorem Delivers.of_refused {b b' : Buffer} {first : Bytes} {fault : Fault} (second : Bytes)
    (h : b.Delivers first (b', some fault)) : b.Delivers (first ++ second) (b', some fault) := by
  refine ⟨fun hne => (by cases hne), ?_, h.room, fun hfits => ?_⟩
  · rw [← List.append_assoc]
    exact h.refused.trans (List.prefix_append _ _)
  · have := h.accepted (hfits.mono (by simp) rfl)
    cases this

theorem delivers_spill (b : Buffer) :
    b.Delivers [] b.spill ∧ b.spill.1.contents = b.contents ∧
      (b.spill.2 = none → b.spill.1.pending = #[]) := by
  have hsend := Outlet.delivers_send b.outlet b.pending
  unfold spill
  generalize b.outlet.send b.pending = outcome at *
  obtain ⟨o, fault⟩ := outcome
  cases fault with
  | none =>
    have hcontents : contents ⟨#[], o⟩ = b.contents := by
      have := hsend.taken rfl
      simp_all [contents]
    exact ⟨.of_contents_eq hcontents hsend.room (fun _ => rfl), hcontents, fun _ => rfl⟩
  | some fault =>
    have hcontents : contents ⟨b.pending, o⟩ = b.contents := by
      have := hsend.refused (by simp)
      simp_all [contents]
    exact ⟨.of_contents_eq hcontents hsend.room hsend.accepted, hcontents, fun h => (by cases h)⟩

theorem delivers_push (b : Buffer) (unit : Bytes) : b.Delivers unit (b.push unit) := by
  have added : ∀ b : Buffer, b.Delivers unit (⟨b.pending ++ unit, b.outlet⟩, none) := fun b =>
    ⟨fun _ => by simp [contents], by simp [contents], rfl, fun _ => rfl⟩
  unfold push
  by_cases hsmall : b.pending.size + unit.length ≤ bufferCapacity
  · rw [if_pos hsmall]
    exact added b
  · rw [if_neg hsmall]
    obtain ⟨hspill, -, -⟩ := delivers_spill b
    generalize b.spill = outcome at *
    obtain ⟨b', fault⟩ := outcome
    cases fault with
    | none => exact hspill.trans (added b')
    | some fault => exact hspill.of_refused unit

/-- Units are taken in order, until one is refused. -/
theorem delivers_pushAll (b : Buffer) (units : List Bytes) :
    b.Delivers units.flatten (b.pushAll units) := by
  induction units generalizing b with
  | nil => exact .of_contents_eq rfl rfl (fun _ => rfl)
  | cons unit more ih =>
    have hpush := delivers_push b unit
    rw [pushAll, List.flatten_cons]
    generalize b.push unit = outcome at *
    obtain ⟨b', fault⟩ := outcome
    cases fault with
    | none => exact hpush.trans (ih b')
    | some fault => exact hpush.of_refused more.flatten

/-- A flush takes nothing, and without a refusal everything has arrived. -/
theorem delivers_flush (b : Buffer) :
    b.Delivers [] b.flush ∧
      (b.flush.2 = none → b.flush.1.outlet.device.received.toList = b.contents) := by
  obtain ⟨hspill, hcontents, hpending⟩ := delivers_spill b
  unfold flush
  generalize b.spill = outcome at *
  obtain ⟨b', fault⟩ := outcome
  cases fault with
  | some fault => exact ⟨hspill, fun h => (by cases h)⟩
  | none =>
    obtain ⟨hflush, hheld⟩ := Outlet.delivers_flush b'.outlet
    simp only [] at *
    have hkept : b'.outlet.flush.1.contents = b'.outlet.contents := by
      cases h : b'.outlet.flush.2 with
      | none => rw [hflush.taken h, List.append_nil]
      | some fault => exact hflush.refused (by simp [h])
    have hsame : contents ⟨b'.pending, b'.outlet.flush.1⟩ = b.contents := by
      rw [← hcontents, contents, contents, hkept]
    refine ⟨.of_contents_eq hsame (hflush.room.trans hspill.room) fun hfits => ?_, fun h => ?_⟩
    · refine hflush.accepted (hfits.mono ?_ hspill.room)
      rw [← hcontents, contents, List.append_nil]
      simp
    · rw [← hsame, contents, Outlet.contents, hheld h, hpending trivial]
      simp

/-- A buffer that is given up has lost nothing if the device has room for everything. -/
theorem received_close {b : Buffer} (h : b.outlet.device.HasRoom b.contents.length) :
    b.close.received.toList = b.contents := by
  obtain ⟨hflush, hreceived⟩ := delivers_flush b
  exact hreceived (hflush.accepted (by rwa [List.append_nil]))

end Buffer

end BenchRatio
