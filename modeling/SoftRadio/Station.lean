import SoftRadio.Radio

/-!
A station: a session with the drivers, the settings and the host's time
that it runs under.  The host's time is a number of nanoseconds that only
moves on.  Every look at a clock takes a moment, and a call that waits
moves the time to the end of its wait; what a command from elsewhere does
to a waiting stream is told beforehand, as an agenda.
-/

namespace SoftRadio

/-- A radio and the host's time at which it was opened. -/
structure Opened (α : Type) where
  radio : Radio α
  epoch : Nat

/-- A command that reaches a channel at a given host time. -/
structure Appointment (α : Type) where
  time : Nat
  command : StreamCommand α
  chan : Nat

structure Station (α : Type) where
  session : Session (Opened α) (StreamOf α)
  /-- Drivers added while running, in order. -/
  scripts : List (Script α)
  settings : ActiveSettings α
  time : Nat

namespace HostTime

variable {α : Type} [Scalar α]

/-- How long a look at a clock takes, in nanoseconds. -/
def moment : Nat := 1000

def perSecond : Nat := 1000000000

/-- Seconds from the opening of a radio. -/
def elapsed (epoch time : Nat) : α := Scalar.ofInt (time - epoch : Nat) / Scalar.ofInt perSecond

/-- The elapsed time at each of the looks from a host time on. -/
def looks (epoch time : Nat) (i : Nat) : α := elapsed epoch (time + (i + 1) * moment)

/-- The host time at an elapsed time. -/
def ofElapsed (epoch : Nat) (elapsed : α) : Nat :=
  epoch + (Scalar.toInt (elapsed * Scalar.ofInt perSecond)).toNat

end HostTime

/-- A device while a stream of it waits: the host time and what is still to come. -/
structure Waiting (α : Type) where
  device : Device α
  time : Nat
  agenda : List (Appointment α)

namespace Waiting

variable {α : Type} [Scalar α]

/-- Carry out an appointment.  One that is refused has no effect. -/
def meet (w : Waiting α) (epoch : Nat) (a : Appointment α) : Device α :=
  match w.device.issue a.command a.chan (HostTime.elapsed epoch (max w.time a.time)) with
  | .ok d => d
  | .error _ => w.device

/-- Sleep to a host time, or to the next appointment before it. -/
def sleepTo (w : Waiting α) (epoch target : Nat) : Waiting α :=
  match w.agenda with
  | a :: rest =>
    if a.time ≤ max w.time target then ⟨w.meet epoch a, max w.time a.time + HostTime.moment, rest⟩
    else { w with time := max w.time target + HostTime.moment }
  | [] => { w with time := max w.time target + HostTime.moment }

/-- Carry out what is left of the agenda. -/
def finish (w : Waiting α) (epoch : Nat) : Device α × Nat :=
  w.agenda.foldl (fun (d, time) a => (({ w with device := d, time := time }).meet epoch a,
    max time a.time + HostTime.moment)) (w.device, w.time)

/-- The world that a stream of one motherboard sees. -/
def world (epoch board : Nat) : World (Waiting α) α where
  scene w := {
    elapsed := HostTime.elapsed epoch w.time
    clock := ((w.device.boards[board]?).map Board.clock).getD Clock.start
    office := w.device.office }
  sleep target w := w.sleepTo epoch (HostTime.ofElapsed epoch target)

end Waiting

/-- What all streams can be asked. -/
inductive StreamQuery where
  | channelCount
  | packetSize
  | itemSize
  deriving DecidableEq, Repr, Inhabited

/-- A transfer that a caller asks of a receive stream.  The buffers may
depend on the stream, and may be refused. -/
structure RecvRequest (α : Type) where
  buffers : Receiver α → Except Fault (List (List UInt8))
  wanted : Nat
  timeout : α
  onePacket : Bool
  agenda : List (Appointment α)

namespace StreamQuery

variable {α : Type}

def ofReceiver (r : Receiver α) : StreamQuery → Nat
  | channelCount => r.channels.length
  | packetSize => r.frameSize
  | itemSize => r.format.itemSize

def ofSender (s : Sender α) : StreamQuery → Nat
  | channelCount => s.channels.length
  | packetSize => s.frameSize
  | itemSize => s.format.itemSize

def answer (q : StreamQuery) : (dir : Direction) → StreamOf α dir → Nat
  | .rx, r => ofReceiver r q
  | .tx, s => ofSender s q

end StreamQuery

/-- What a transfer came to for the caller. -/
abbrev Transfer (α : Type) : Type := RxMetadata α × Nat

namespace Opened

variable {α : Type} [Scalar α]

/-- A transfer on one receive stream.  Also the buffers, if there were any,
and the host time afterwards. -/
def recv (o : Opened α) (r : Receiver α) (time : Nat) (request : RecvRequest α) :
    (Except Fault (Transfer α) × List (List UInt8) × Nat) × Opened α × Receiver α :=
  match request.buffers r with
  | .error f => ((.error f, [], time), o, r)
  | .ok buffers =>
    let wait := HostTime.ofElapsed 0 (boundedWait request.timeout)
    let fuel := wait / HostTime.moment + 2 * request.agenda.length + 2
    let agenda := request.agenda.map fun a => { a with time := time + a.time }
    let start : Waiting α := ⟨o.radio.device, time + HostTime.moment, agenda⟩
    let (received, w) := Receiver.recv (Waiting.world o.epoch r.board) fuel start r buffers
      request.wanted request.timeout request.onePacket
    let (device, time) := w.finish o.epoch
    ((received.result, received.buffers, time), { o with radio := o.radio.setDevice device },
      received.receiver)

/-- Issue a command on the channels of a stream. -/
def issueOn (o : Opened α) (r : Receiver α) (time : Nat)
    (command : Except Fault (StreamCommand α)) :
    Except Fault Unit × Opened α × Receiver α :=
  match command >>= fun c => o.radio.device.issueOn r c (HostTime.looks o.epoch time 0) with
  | .error f => (.error f, o, r)
  | .ok d => (.ok (), { o with radio := o.radio.setDevice d }, r)

/-- Send a packet. -/
def send (o : Opened α) (s : Sender α) (time : Nat) (sizes : List Nat) (count : Nat)
    (md : TxMetadata α) : Except Fault Nat × Sender α :=
  match o.radio.device.board s.board with
  | .error f => (.error f, s)
  | .ok b => s.send sizes count md b.clock (HostTime.looks o.epoch time 0)

end Opened

namespace Station

variable {α : Type} [Scalar α] {β ω : Type}

/-- A station on which nothing has happened. -/
def initial (source : SettingsSource) (scripts : List (Script α)) : Station α where
  session := Session.initial
  scripts := scripts.foldl (fun acc s => acc.filter (·.name != s.name) ++ [s]) []
  settings := ActiveSettings.ofSource source
  time := HostTime.perSecond

/-- Let a moment pass. -/
def tick (st : Station α) : Station α := { st with time := st.time + 64 * HostTime.moment }

def register (st : Station α) (s : Script α) : Station α :=
  { st with scripts := st.scripts.filter (·.name != s.name) ++ [s] }

/-- The drivers in order; the simulation comes first. -/
def drivers (st : Station α) : List (Driver (Radio α)) :=
  Simulation.driver st.settings.settings.sim :: st.scripts.map Script.driver

def driverNames (st : Station α) : List String := st.drivers.map Driver.name

/-- Nothing can be found while the settings are unusable. -/
def usable (st : Station α) : Except Fault Unit :=
  match st.settings.status with
  | .ok () => .ok ()
  | .error e => refuse e

def find (st : Station α) (args : String) : Except Error (List Address) :=
  guardedResult do
    st.usable
    Discovery.search (Address.parse args) st.drivers

/-- Open a device; also its index. -/
def makeDevice (st : Station α) (args : String) : Except Error Nat × Station α :=
  let opened := guardedResult do
    st.usable
    Discovery.open? st.drivers (Address.parse args)
  match opened with
  | .error e => (.error e, st)
  | .ok radio =>
    let (index, session) := st.session.addDevice ⟨radio, st.time⟩
    (.ok index, { st with session := session }.tick)

/-- The end of a device that was taken out: quiet, or a crash. -/
def drop (o : Opened α) : Except Fault Unit :=
  match o.radio.lastWords with
  | none => .ok ()
  | some text => crash text

def freeDevice (st : Station α) (index : Nat) : Except Fault Unit × Station α :=
  match st.session.freeDevice index with
  | (.error e, session) => (refuse e, { st with session := session })
  | (.ok o, session) => (drop o, { st with session := session })

/-- Drop everything. -/
def clear (st : Station α) : Except Fault Unit × Station α :=
  let gone := st.session.devices.rows.filter HandleRow.listed
  (gone.forM fun row => drop row.record.device, { st with session := st.session.clear })

/-- A call on a device.  Arguments that are unusable count as a failure of the call. -/
def deviceCall (st : Station α) (index : Nat) (call : Except Fault (Call α)) :
    Except Error (Answer α) × Station α :=
  let (result, session) := st.session.deviceCall index fun o =>
    match call >>= o.radio.perform (HostTime.looks o.epoch st.time) with
    | .error f => (.error f, o)
    | .ok (answer, radio) => (.ok answer, { o with radio := radio })
  (result, { st with session := session }.tick)

/-- Build a stream on a device, freeing the handle that the device's script names first. -/
def build (dir : Direction) (index : Nat) (args : StreamArgs)
    (s : Session (Opened α) (StreamOf α)) :
    Except Fault (StreamOf α dir) × Session (Opened α) (StreamOf α) :=
  match s.devices.row? index with
  | none => (refuse (.noDevice index), s)
  | some row =>
    let radio := row.record.device.radio
    let (freed, s) : Except Error Unit × Session (Opened α) (StreamOf α) :=
      match radio.frees dir with
      | none => (.ok (), s)
      | some handle => s.freeStream dir handle
    match freed with
    | .error e => (refuse e, s)
    | .ok () => (radio.openStream args dir, s)

def attach (st : Station α) (dir : Direction) (index handle : Nat) (args : StreamArgs) :
    Except Error Nat × Station α :=
  let (result, session) := st.session.attach dir index handle (build dir index args)
  (result, { st with session := session }.tick)

def makeStream (st : Station α) (dir : Direction) : Nat × Station α :=
  let (handle, session) := st.session.makeStream dir
  (handle, { st with session := session })

def freeStream (st : Station α) (dir : Direction) (handle : Nat) :
    Except Error Unit × Station α :=
  let (result, session) := st.session.freeStream dir handle
  (result, { st with session := session })

/-- A question to a stream, or any other call that changes nothing. -/
def askStream (st : Station α) (dir : Direction) (handle : Nat)
    (f : StreamOf α dir → Except Fault β) : Except Error β × Station α :=
  let (result, session) := st.session.streamCall dir handle fun o stream => (f stream, o, stream)
  (result, { st with session := session })

def issue (st : Station α) (handle : Nat) (command : Except Fault (StreamCommand α)) :
    Except Error Unit × Station α :=
  let (result, session) := st.session.streamCall .rx handle fun o (r : Receiver α) =>
    o.issueOn r st.time command
  (result, { st with session := session }.tick)

/-- A transfer; also the buffers that the stream was lent. -/
def recv (st : Station α) (handle : Nat) (request : RecvRequest α) :
    (Except Error (Transfer α) × List (List UInt8)) × Station α :=
  let ((result, product), session) := st.session.streamRun .rx handle fun o (r : Receiver α) =>
    o.recv r st.time request
  let (buffers, time) := product.getD ([], st.time)
  ((result, buffers), { st with session := session, time := time }.tick)

/-- Send a packet; its buffers and metadata may be refused. -/
def send (st : Station α) (handle : Nat)
    (packet : Sender α → Except Fault (List Nat × Nat × TxMetadata α)) :
    Except Error Nat × Station α :=
  let (result, session) := st.session.streamCall .tx handle fun o (s : Sender α) =>
    match packet s with
    | .error f => (.error f, o, s)
    | .ok (sizes, count, md) =>
      let (result, s) := o.send s st.time sizes count md
      (result, o, s)
  (result, { st with session := session }.tick)

/-- Wait for a report of what was sent. -/
def nextEvent (st : Station α) (handle : Nat) (ready : Except Fault Unit) (timeout : α) :
    Except Error (Option (AsyncMetadata α)) × Station α :=
  let (result, session) := st.session.streamCall .tx handle fun o (s : Sender α) =>
    match ready with
    | .error f => (.error f, o, s)
    | .ok () =>
      let (event, s) := s.nextEvent
      (.ok event, o, s)
  let time := match result with
    | .ok none => st.time + HostTime.ofElapsed 0 (boundedWait timeout)
    | _ => st.time
  (result, { st with session := session, time := time }.tick)

end Station

end SoftRadio
