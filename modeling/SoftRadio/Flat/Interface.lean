import SoftRadio.Flat.Desk
import SoftRadio.Flat.DeviceFunction

/-!
The flat interface: functions with names, which take plain arguments and
answer with a status.  `Function.steps` is what a function does, step by
step, and `Function.run` what it comes to on a desk of its own.
`Interface.call` keeps the text of the latest failure, which every caller
can ask for.
-/

namespace SoftRadio.Flat

/-- Everything that can be called. -/
inductive Function (α : Type) where
  | lastError
  | find
  | makeDevice
  | freeDevice
  | deviceLastError
  | device (f : DeviceFunction α)
  | openStream (dir : Direction)
  | makeStream (dir : Direction)
  | freeStream (dir : Direction)
  | streamLastError (dir : Direction)
  | query (dir : Direction) (q : StreamQuery) (place : String)
  | recv
  | issue
  | send
  | nextEvent

/-- A station and the message of the latest failure. -/
structure Interface (α : Type) where
  station : Station α
  lastError : String

/-- What a caller gets back. -/
structure Reply (α : Type) where
  status : Status
  writes : Writes α
  /-- The sample buffers that a receive stream was lent, as it left them. -/
  buffers : List (List UInt8)

/-- The version of the interface. -/
def version : Nat := 1

namespace Function

open Steps Desk

variable {α : Type} [Scalar α]

def ofStreams (dir : Direction) : List (String × Function α) :=
  let d := dir.name
  [(s!"radio_device_get_{d}_stream", .openStream dir),
    (s!"radio_{d}_streamer_make", .makeStream dir),
    (s!"radio_{d}_streamer_free", .freeStream dir),
    (s!"radio_{d}_streamer_last_error", .streamLastError dir),
    (s!"radio_{d}_streamer_num_channels", .query dir .channelCount "num_channels output"),
    (s!"radio_{d}_streamer_max_num_samps", .query dir .packetSize "max_num_samps output")]

/-- All functions by name. -/
def table : List (String × Function α) :=
  [("radio_get_last_error", .lastError),
    ("radio_find", .find),
    ("radio_device_make", .makeDevice),
    ("radio_device_free", .freeDevice),
    ("radio_device_last_error", .deviceLastError),
    ("radio_rx_streamer_recv", .recv),
    ("radio_rx_streamer_issue_stream_cmd", .issue),
    ("radio_tx_streamer_send", .send),
    ("radio_tx_streamer_recv_async_msg", .nextEvent)] ++
  ofStreams .rx ++ ofStreams .tx ++ DeviceFunction.table.map fun f => (f.name, .device f)

def ofName? (name : String) : Option (Function α) :=
  (table.find? fun (n, _) => n == name).map Prod.snd

/-- The places that a function writes. -/
def places : Function α → List Place
  | lastError | deviceLastError | streamLastError _ => [.text]
  | find => [.text, .count]
  | makeDevice | freeDevice | makeStream _ | freeStream _ => [.handle]
  | device f => f.output.places
  | openStream _ | issue => []
  | query .. => [.value]
  | recv => [.metadata, .items]
  | send => [.items]
  | nextEvent => [.metadata, .valid]

/-- Copy a text out. -/
def copyOut (a : Arguments α) (s : String) : Steps (Desk α) Unit := do
  check (Output.checkText a)
  writeAll (Output.writeText a s)

def runFind (a : Arguments α) : Steps (Desk α) Unit := do
  let args ← check (a.text.read "args")
  check (Output.check .texts a)
  let found ← ask fun st => st.find args
  writeAll (Output.writeTexts a (found.map Address.render))

def runMake (a : Arguments α) : Steps (Desk α) Unit := do
  check (a.given .handle "device handle pointer")
  let args ← check (a.text.read "args")
  let index ← forward fun st => st.makeDevice args
  write .handle (.count index)

/-- After a free call the handle of the caller is zero, which stands for nothing.  A device that
crashes in its end is gone, and its handle is left alone. -/
def runFree (a : Arguments α) : Steps (Desk α) Unit := do
  check (a.given .handle "device handle pointer")
  onStation fun st => st.freeDevice a.handle
  write .handle (.count 0)

/-- The arguments of a stream.  A refusal of them is kept by the device. -/
def openArgs (a : Arguments α) : Steps (Desk α) StreamArgs := do
  let _ ← ask fun st => st.session.deviceRecord a.handle
  forward fun st => match guardedResult a.readStreamArgs with
    | .ok args => (.ok args, st)
    | .error e =>
      (.error e, { st with session :=
        st.session.recordOnDevice a.handle (.error e : Except Error Unit) })

/-- Attach a stream. -/
def runOpen (dir : Direction) (a : Arguments α) : Steps (Desk α) Unit := do
  let args ← openArgs a
  let _ ← forward fun st => st.attach dir a.handle a.stream args

def runDevice (f : DeviceFunction α) (a : Arguments α) : Steps (Desk α) Unit := do
  let answer ← forward fun st => st.deviceCall a.handle (f.prepare a)
  writeAll (Output.ofAnswer a answer)

/-- What messages call the place of a stream handle. -/
def handlePlace (dir : Direction) : String := s!"{dir.name} streamer handle pointer"

def runMakeStream (dir : Direction) (a : Arguments α) : Steps (Desk α) Unit := do
  check (a.given .handle (handlePlace dir))
  let handle ← onStation fun st =>
    let (handle, st) := st.makeStream dir
    (.ok handle, st)
  write .handle (.count handle)

def runFreeStream (dir : Direction) (a : Arguments α) : Steps (Desk α) Unit := do
  check (a.given .handle (handlePlace dir))
  forward fun st => st.freeStream dir a.handle
  write .handle (.count 0)

/-- Ask a party for the text of the latest call through it. -/
def runPartyText (a : Arguments α) (text : Station α → Except Error String) :
    Steps (Desk α) Unit := do
  copyOut a (← ask text)

def runQuery (dir : Direction) (q : StreamQuery) (place : String) (a : Arguments α) :
    Steps (Desk α) Unit := do
  let n ← forward fun st => st.askStream dir a.handle fun stream => do
    a.given .value place
    return q.answer dir stream
  write .value (.count n)

def runRecv (a : Arguments α) : Steps (Desk α) Unit := do
  let request : RecvRequest α := {
    buffers := fun r => do
      a.given .metadata "rx metadata output"
      a.given .items "items_recvd output"
      let size ← a.bufferSize r.channelCount r.itemSize
      return a.lentBuffers r.channelCount size
    wanted := a.samples
    timeout := a.timeout
    onePacket := a.onePacket
    agenda := [] }
  let (md, n) ← lend fun st => st.recv a.handle request
  write .metadata (.received md)
  write .items (.count n)

def runIssue (a : Arguments α) : Steps (Desk α) Unit :=
  forward fun st => st.issue a.handle a.readCommand

def runSend (a : Arguments α) : Steps (Desk α) Unit := do
  let n ← forward fun st => st.send a.handle fun s => do
    a.given .items "items_sent output"
    let md ← a.readPacket
    let size ← a.bufferSize s.channelCount s.itemSize
    return (List.replicate s.channelCount size, a.samples, md)
  write .items (.count n)

/-- Whether a report came is written first; only one that came is written out. -/
def runNextEvent (a : Arguments α) : Steps (Desk α) Unit := do
  let ready : Except Fault Unit := do
    a.given .metadata "async metadata output"
    a.given .valid "valid output"
  let event ← forward fun st => st.nextEvent a.handle ready a.timeout
  write .valid (.flag event.isSome)
  match event with
  | some md => write .metadata (.reported md)
  | none => pure ()

/-- What a function does, step by step, where a text was left by the latest failure. -/
def steps (f : Function α) (a : Arguments α) (latest : String) : Steps (Desk α) Unit :=
  match f with
  | lastError => copyOut a latest
  | find => runFind a
  | makeDevice => runMake a
  | freeDevice => runFree a
  | deviceLastError => runPartyText a fun st => st.session.deviceLastError a.handle
  | device f => runDevice f a
  | openStream dir => runOpen dir a
  | makeStream dir => runMakeStream dir a
  | freeStream dir => runFreeStream dir a
  | streamLastError dir =>
    runPartyText a fun st => st.session.streamLastError dir a.handle
  | query dir q place => runQuery dir q place a
  | recv => runRecv a
  | issue => runIssue a
  | send => runSend a
  | nextEvent => runNextEvent a

/-- What a function comes to on a desk of its own, and what it leaves there. -/
def run (f : Function α) (a : Arguments α) (i : Interface α) : Except Fault Unit × Desk α :=
  f.steps a i.lastError (Desk.start i.station)

end Function

namespace Interface

variable {α : Type} [Scalar α]

/-- An interface on which nothing was called. -/
def initial (station : Station α) : Interface α := ⟨station, ""⟩

/-- The status and the message of a fault of a named function. -/
def explain (name : String) : Fault → Status × String
  | .error e => (e.status, e.message)
  | .crash text => (.unknown, s!"Internal panic in {name}: {text}")

/-- Call a function.  What it has left on its desk goes to the caller, whether it succeeded or not;
the message of a failure is kept. -/
def call (i : Interface α) (name : String) (f : Function α) (a : Arguments α) :
    Reply α × Interface α :=
  let (result, desk) := f.run a i
  match result with
  | .ok () => (⟨.none, desk.writes, desk.buffers⟩, { i with station := desk.station })
  | .error fault =>
    let (status, message) := explain name fault
    (⟨status, desk.writes, desk.buffers⟩, ⟨desk.station, message⟩)

end Interface

end SoftRadio.Flat
