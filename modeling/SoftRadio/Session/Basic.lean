import SoftRadio.Direction
import SoftRadio.Session.ErrorSlot
import SoftRadio.Session.HandleTable
import SoftRadio.Session.Slots

/-!
Sessions: devices, the streams attached to them, and the handles that name
both.  A stream handle is bound to a slot of a device by an attach, and
calls reach the stream through that binding.

Attaching and freeing are made of phases between which other calls may run:
an attach finds its device and handle, builds the stream, and commits it;
a free takes its handle out of the table, releases the binding, and vacates
the slot.  `Session.attach` and `Session.free` are the phases in a row.

The types of devices and of streams are parameters, so nothing here depends
on what a device does.
-/

namespace SoftRadio

/-- Where the stream of a handle is. -/
structure Binding where
  device : Nat
  offset : Nat
  deriving DecidableEq, Repr, Inhabited

/-- The record of a stream handle. -/
structure StreamRecord where
  binding : Option Binding
  /-- Set for good when the handle is freed. -/
  released : Bool
  lastError : String
  deriving DecidableEq, Repr, Inhabited

/-- The record of a device. -/
structure DeviceRecord (δ : Type) (σ : Direction → Type) where
  device : δ
  slots : Sides fun dir => Slots (σ dir)
  lastError : String

structure Session (δ : Type) (σ : Direction → Type) where
  devices : HandleTable (DeviceRecord δ σ)
  handles : Sides fun _ => HandleTable StreamRecord

namespace Session

variable {δ : Type} {σ : Direction → Type} {β : Type}

def initial : Session δ σ := ⟨HandleTable.empty, ⟨HandleTable.empty, HandleTable.empty⟩⟩

/-! ### Devices -/

def deviceRecord (s : Session δ σ) (index : Nat) : Except Error (DeviceRecord δ σ) :=
  match s.devices.get? index with
  | some r => .ok r
  | none => .error (.noDevice index)

/-- Register a device; also its index. -/
def addDevice (s : Session δ σ) (device : δ) : Nat × Session δ σ :=
  let (index, devices) :=
    s.devices.insert ⟨device, ⟨Slots.empty, Slots.empty⟩, ErrorSlot.initial⟩
  (index, { s with devices := devices })

/-- Take a device out, and its streams with it; also the device. -/
def freeDevice (s : Session δ σ) (index : Nat) : Except Error δ × Session δ σ :=
  match s.devices.remove index with
  | (some r, devices) => (.ok r.device, { s with devices := devices })
  | (none, _) => (.error (.noDevice index), s)

def modifyDevice (s : Session δ σ) (index : Nat)
    (f : DeviceRecord δ σ → DeviceRecord δ σ) : Session δ σ :=
  { s with devices := s.devices.modify index f }

/-- Put down what a call on a device came to. -/
def recordOnDevice (s : Session δ σ) (index : Nat) (result : Except Error β) : Session δ σ :=
  s.modifyDevice index fun r => { r with lastError := ErrorSlot.ofResult result }

/-- Run a call on a device and put down what it came to. -/
def deviceCall (s : Session δ σ) (index : Nat) (f : δ → Except Fault β × δ) :
    Except Error β × Session δ σ :=
  match s.deviceRecord index with
  | .error e => (.error e, s)
  | .ok r =>
    let (result, device) := f r.device
    let result := guardedResult result
    let s := s.modifyDevice index fun r => { r with device := device }
    (result, s.recordOnDevice index result)

def deviceLastError (s : Session δ σ) (index : Nat) : Except Error String := do
  let r ← s.deviceRecord index
  return r.lastError

/-! ### Stream handles -/

def streamRecord (s : Session δ σ) (dir : Direction) (handle : Nat) :
    Except Error StreamRecord :=
  match (s.handles.get dir).get? handle with
  | some r => .ok r
  | none => .error (.noStreamer dir handle)

def modifyStream (s : Session δ σ) (dir : Direction) (handle : Nat)
    (f : StreamRecord → StreamRecord) : Session δ σ :=
  { s with handles := s.handles.set dir ((s.handles.get dir).modify handle f) }

/-- A new handle, bound to nothing. -/
def makeStream (s : Session δ σ) (dir : Direction) : Nat × Session δ σ :=
  let (handle, table) := (s.handles.get dir).insert ⟨none, false, ErrorSlot.initial⟩
  (handle, { s with handles := s.handles.set dir table })

/-- Vacate the slot of a binding, if its device is still there. -/
def detach (s : Session δ σ) (dir : Direction) (b : Binding) : Session δ σ :=
  match s.deviceRecord b.device with
  | .error _ => s
  | .ok _ => s.modifyDevice b.device fun r =>
    { r with slots := r.slots.set dir ((r.slots.get dir).detach b.offset).2 }

/-- First phase of a free: take the handle out of the table. -/
def unlistStream (s : Session δ σ) (dir : Direction) (handle : Nat) :
    Except Error Unit × Session δ σ :=
  match (s.handles.get dir).remove handle with
  | (some _, table) => (.ok (), { s with handles := s.handles.set dir table })
  | (none, _) => (.error (.noStreamer dir handle), s)

/-- Second phase of a free: mark the record as released and take its binding. -/
def releaseStream (s : Session δ σ) (dir : Direction) (handle : Nat) :
    Option Binding × Session δ σ :=
  let held := (((s.handles.get dir).row? handle).map HandleRow.record).bind StreamRecord.binding
  (held, s.modifyStream dir handle fun r => { r with binding := none, released := true })

/-- Third phase of a free: vacate the slot that was bound. -/
def vacate (s : Session δ σ) (dir : Direction) : Option Binding → Session δ σ
  | none => s
  | some b => s.detach dir b

/-- Free a stream handle. -/
def freeStream (s : Session δ σ) (dir : Direction) (handle : Nat) :
    Except Error Unit × Session δ σ :=
  match s.unlistStream dir handle with
  | (.error e, s) => (.error e, s)
  | (.ok (), s) =>
    let (held, s) := s.releaseStream dir handle
    (.ok (), s.vacate dir held)

/-- Last phase of an attach: bind the handle to a slot that holds the
stream, after vacating the slot it was bound to before.  A handle that was
released in the meantime is refused. -/
def commit (s : Session δ σ) (dir : Direction) (index handle : Nat) (stream : σ dir) :
    Except Error Nat × Session δ σ :=
  match ((s.handles.get dir).row? handle).map HandleRow.record with
  | none => (.error (.noStreamer dir handle), s)
  | some record =>
    if record.released then (.error (.freedDuringAttach dir handle), s)
    else
      let s := s.vacate dir record.binding
      match (s.devices.row? index).map HandleRow.record with
      | none => (.error (.noDevice index), s)
      | some d =>
        let (offset, slots) := (d.slots.get dir).attach stream
        let s := s.modifyDevice index fun r => { r with slots := r.slots.set dir slots }
        let s := s.modifyStream dir handle fun r => { r with binding := some ⟨index, offset⟩ }
        (.ok offset, s)

/-- Find what an attach needs: its device, then its handle. -/
def resolveAttach (s : Session δ σ) (dir : Direction) (index handle : Nat) :
    Except Error Unit := do
  let _ ← s.deviceRecord index
  let _ ← s.streamRecord dir handle

/-- Build a stream on a device and bind a handle to it.  The device keeps
what became of the build.  `build` may itself use the session. -/
def attach (s : Session δ σ) (dir : Direction) (index handle : Nat)
    (build : Session δ σ → Except Fault (σ dir) × Session δ σ) :
    Except Error Nat × Session δ σ :=
  match s.resolveAttach dir index handle with
  | .error e => (.error e, s)
  | .ok () =>
    let (built, s) := build s
    let built := guardedResult built
    let s := s.recordOnDevice index built
    match built with
    | .error e => (.error e, s)
    | .ok stream => s.commit dir index handle stream

/-- The stream that a record is bound to, with the device and the place. -/
def resolveStream (s : Session δ σ) (dir : Direction) (record : StreamRecord) :
    Except Error (Binding × δ × σ dir) :=
  match record.binding with
  | none => .error (.notAttached dir)
  | some b => do
    let d ← s.deviceRecord b.device
    match (d.slots.get dir).get? b.offset with
    | some stream => return (b, d.device, stream)
    | none => .error (.vacantSlot dir b.offset b.device)

/-- Run a call on the stream behind a handle and put down what it came to.
The call may change the stream and its device, and it has a by-product of
its own, whether it succeeds or not. -/
def streamRun {ω : Type} (s : Session δ σ) (dir : Direction) (handle : Nat)
    (f : δ → σ dir → (Except Fault β × ω) × δ × σ dir) :
    (Except Error β × Option ω) × Session δ σ :=
  match s.streamRecord dir handle with
  | .error e => ((.error e, none), s)
  | .ok record =>
    let (result, product, s) : Except Error β × Option ω × Session δ σ :=
      match s.resolveStream dir record with
      | .error e => (.error e, none, s)
      | .ok (b, device, stream) =>
        let ((result, product), device, stream) := f device stream
        (guardedResult result, some product, s.modifyDevice b.device fun r =>
          { r with
            device := device
            slots := r.slots.set dir ((r.slots.get dir).update b.offset stream) })
    ((result, product), s.modifyStream dir handle fun r =>
      { r with lastError := ErrorSlot.ofResult result })

/-- A call without a by-product. -/
def streamCall (s : Session δ σ) (dir : Direction) (handle : Nat)
    (f : δ → σ dir → Except Fault β × δ × σ dir) : Except Error β × Session δ σ :=
  let ((result, _), s) := s.streamRun dir handle fun device stream =>
    let (result, device, stream) := f device stream
    ((result, ()), device, stream)
  (result, s)

def streamLastError (s : Session δ σ) (dir : Direction) (handle : Nat) : Except Error String := do
  let r ← s.streamRecord dir handle
  return r.lastError

def streamBinding (s : Session δ σ) (dir : Direction) (handle : Nat) :
    Except Error (Option Binding) := do
  let r ← s.streamRecord dir handle
  return r.binding

/-- Vacate a slot of a device directly; also whether it was occupied. -/
def evict (s : Session δ σ) (dir : Direction) (index offset : Nat) :
    Except Error Bool × Session δ σ :=
  match s.deviceRecord index with
  | .error e => (.error e, s)
  | .ok d =>
    (.ok ((d.slots.get dir).get? offset).isSome, s.detach dir ⟨index, offset⟩)

/-- Drop every device and every stream handle.  No number is used again. -/
def clear (s : Session δ σ) : Session δ σ :=
  ⟨s.devices.clear, ⟨s.handles.rx.clear, s.handles.tx.clear⟩⟩

end Session

end SoftRadio
