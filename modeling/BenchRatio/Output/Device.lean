import BenchRatio.Fault
import BenchRatio.Text.Utf8

/-!
# Where output goes

Bytes pass a buffer on their way to a device. The buffer sends what it holds when the next unit does
not fit; a unit is never split. A device takes a chunk whole or refuses it, and a refused chunk
stays in the buffer, to be sent again at the next occasion.

* `Device.write`: a chunk arrives, or the device has no room for it.
* `Outlet`: a device, with or without a second buffer in front of it.
* `Buffer.push`, `Buffer.flush`: a unit goes into the buffer; everything held is sent on.
-/

namespace BenchRatio

/-! ## Devices -/

/-- The end of the way. -/
structure Device where
  /-- The number of bytes it can hold, if that is limited. -/
  room : Option Nat
  /-- Why it refuses more. -/
  fault : Fault
  /-- The bytes that have arrived. -/
  received : Array UInt8

namespace Device

/-- A device that takes everything. -/
def unlimited : Device := ⟨none, .noSpace, #[]⟩

/-- A device with room for so many bytes. -/
def limited (room : Nat) (fault : Fault) : Device := ⟨some room, fault, #[]⟩

/-- Whether a chunk finds room. -/
def fits (d : Device) (chunk : Array UInt8) : Bool :=
  match d.room with
  | none => true
  | some room => d.received.size + chunk.size ≤ room

/-- A chunk arrives whole or is refused; an empty one is not even sent. -/
def write (d : Device) (chunk : Array UInt8) : Device × Option Fault :=
  if chunk.size = 0 then (d, none)
  else if d.fits chunk then ({ d with received := d.received ++ chunk }, none)
  else (d, some d.fault)

end Device

/-- The number of bytes a buffer holds. -/
def bufferCapacity : Nat := 8192

/-! ## Outlets -/

/-- A device, with or without a buffer in front of it. -/
structure Outlet where
  device : Device
  /-- The bytes held back, if there is a buffer. -/
  held : Option (Array UInt8)

namespace Outlet

/-- The way to a stream: no buffer. -/
def direct (d : Device) : Outlet := ⟨d, none⟩

/-- The way to a file: one buffer. -/
def buffered (d : Device) : Outlet := ⟨d, some #[]⟩

/-- Sends what the buffer holds. -/
def flush (o : Outlet) : Outlet × Option Fault :=
  match o.held with
  | none => (o, none)
  | some held =>
    match o.device.write held with
    | (d, none) => (⟨d, some #[]⟩, none)
    | (d, some fault) => (⟨d, some held⟩, some fault)

/-- A chunk for an outlet whose buffer has been emptied or has just room for it: a chunk as large as
the buffer passes it by. -/
def settle (o : Outlet) (chunk : Array UInt8) : Outlet × Option Fault :=
  match o.held with
  | none =>
    let (d, fault) := o.device.write chunk
    (⟨d, none⟩, fault)
  | some held =>
    if chunk.size < bufferCapacity then (⟨o.device, some (held ++ chunk)⟩, none)
    else
      let (d, fault) := o.device.write chunk
      (⟨d, some held⟩, fault)

/-- Takes a chunk; a buffer without room for it is emptied first. -/
def send (o : Outlet) (chunk : Array UInt8) : Outlet × Option Fault :=
  match o.held with
  | none => o.settle chunk
  | some held =>
    if held.size + chunk.size ≤ bufferCapacity then o.settle chunk
    else
      match o.flush with
      | (o', some fault) => (o', some fault)
      | (o', none) => o'.settle chunk

end Outlet

/-! ## Buffers -/

/-- Bytes on their way to an outlet. -/
structure Buffer where
  pending : Array UInt8
  outlet : Outlet

namespace Buffer

/-- An empty buffer. -/
def new (o : Outlet) : Buffer := ⟨#[], o⟩

/-- Sends the pending bytes to the outlet; a refused chunk stays pending. -/
def spill (b : Buffer) : Buffer × Option Fault :=
  match b.outlet.send b.pending with
  | (o, none) => (⟨#[], o⟩, none)
  | (o, some fault) => (⟨b.pending, o⟩, some fault)

/-- Takes a unit; a buffer without room for it is spilled first. -/
def push (b : Buffer) (unit : Bytes) : Buffer × Option Fault :=
  if b.pending.size + unit.length ≤ bufferCapacity then
    (⟨b.pending ++ unit, b.outlet⟩, none)
  else
    match b.spill with
    | (b', some fault) => (b', some fault)
    | (b', none) => (⟨b'.pending ++ unit, b'.outlet⟩, none)

/-- Takes units one after the other, until the first refusal. -/
def pushAll (b : Buffer) : List Bytes → Buffer × Option Fault
  | [] => (b, none)
  | unit :: more =>
    match b.push unit with
    | (b', some fault) => (b', some fault)
    | (b', none) => b'.pushAll more

/-- Sends everything on to the device. -/
def flush (b : Buffer) : Buffer × Option Fault :=
  match b.spill with
  | (b', some fault) => (b', some fault)
  | (b', none) =>
    let (o, fault) := b'.outlet.flush
    (⟨b'.pending, o⟩, fault)

/-- What the device has when the buffer is given up: the buffer tries once more to send what it
holds, and nobody hears of a failure. -/
def close (b : Buffer) : Device := b.flush.1.outlet.device

end Buffer

end BenchRatio
