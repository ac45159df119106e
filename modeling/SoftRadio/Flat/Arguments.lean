import SoftRadio.Eeprom
import SoftRadio.Stream.Args
import SoftRadio.Stream.Command
import SoftRadio.Text.Truncation
import SoftRadio.Tuning
import SoftRadio.Word

/-!
What a caller of the flat interface passes.  Everything is a number, a run
of bytes that ends at a zero, a record of such things, or a place to write
to.  Texts, records and places may be missing.  Reading an argument checks
it: a text must be there and be UTF-8, a record must be there and its
numbers must stand for something.
-/

namespace SoftRadio.Flat

/-- The places and records that a caller may lend, by what they are for. -/
inductive Place where
  | text
  | count
  | ranges
  | value
  | whole
  | fraction
  | handle
  | request
  | streamArgs
  | channels
  | command
  | record
  | metadata
  | items
  | valid
  /-- The array of sample buffers. -/
  | buffers
  /-- One of the sample buffers. -/
  | buffer (index : Nat)
  deriving DecidableEq, Repr, Inhabited

/-- The bytes of a text, if there is one. -/
abbrev TextArgument : Type := Option (List UInt8)

/-- A point in time as two numbers. -/
structure TimeRecord (α : Type) where
  whole : Int
  fraction : α

structure StreamArgsRecord where
  cpu : TextArgument
  wire : TextArgument
  args : TextArgument
  channels : List Nat
  channelCount : Nat

structure CommandRecord (α : Type) where
  mode : Int
  count : Nat
  immediate : Bool
  time : TimeRecord α

structure TuneRecord (α : Type) where
  target : α
  rfPolicy : Int
  rf : α
  dspPolicy : Int
  dsp : α
  args : TextArgument

structure PacketRecord (α : Type) where
  hasTime : Bool
  time : TimeRecord α
  startOfBurst : Bool
  endOfBurst : Bool

/-- The arguments of a call.  Each function uses some of them. -/
structure Arguments (α : Type) where
  /-- The places that the caller did not lend. -/
  missing : List Place
  handle : Nat
  board : Nat
  chan : Nat
  enable : Bool
  time : TimeRecord α
  value : α
  register : Nat
  data : UInt32
  word : UInt32
  mask : UInt32
  text : TextArgument
  name : TextArgument
  slot : TextArgument
  unit : TextArgument
  bank : TextArgument
  attr : TextArgument
  /-- The size of the text buffer. -/
  length : Nat
  /-- The room for ranges. -/
  capacity : Nat
  /-- The stream handle that a device is to serve. -/
  stream : Nat
  streamArgs : StreamArgsRecord
  command : CommandRecord α
  tuning : TuneRecord α
  record : DboardRecord
  /-- Samples of each buffer. -/
  samples : Nat
  timeout : α
  onePacket : Bool
  packet : PacketRecord α
  /-- What each lent buffer holds at each offset. -/
  lent : Nat → Nat → UInt8

/-- Refuse to go on without a place. -/
def Arguments.given {α : Type} (a : Arguments α) (p : Place) (what : String) :
    Except Fault Unit :=
  if a.missing.contains p then refuse (.missing what) else .ok ()

namespace TextArgument

/-- The text of an argument, up to its first zero. -/
def read (what : String) : TextArgument → Except Fault String
  | none => refuse (.missing what)
  | some bytes => match Text.ofBytes? (Text.untilZero bytes) with
    | some s => .ok s
    | none => refuse (.notUtf8 what)

/-- The name of a gain element; without one the overall gain is meant. -/
def readGainName : TextArgument → Except Fault String
  | none => .ok ""
  | some bytes => read "gain name" (some bytes)

/-- Further arguments, of which there may be none. -/
def readAddress : TextArgument → Except Fault Address
  | none => .ok Address.empty
  | some bytes => do
    let markup ← read "args" (some bytes)
    return Address.parse markup

end TextArgument

variable {α : Type} [Scalar α]

def TimeRecord.read (t : TimeRecord α) : Except Fault (TimeSpec α) :=
  TimeSpec.make t.whole t.fraction

namespace Arguments

def readStreamArgs (a : Arguments α) : Except Fault StreamArgs := do
  a.given .streamArgs "stream args"
  let cpu ← a.streamArgs.cpu.read "cpu_format"
  let wire ← a.streamArgs.wire.read "otw_format"
  let args ← a.streamArgs.args.readAddress
  if a.streamArgs.channelCount = 0 then return ⟨cpu, wire, args, []⟩
  else if a.missing.contains .channels then refuse .missingChannels
  else return ⟨cpu, wire, args, a.streamArgs.channels.take a.streamArgs.channelCount⟩

def readCommand (a : Arguments α) : Except Fault (StreamCommand α) := do
  a.given .command "stream command"
  let mode ← StreamMode.ofRaw a.command.mode
  let time ← a.command.time.read
  return ⟨mode, a.command.count, a.command.immediate, time⟩

def readTuneRequest (a : Arguments α) : Except Fault (TuneRequest α) := do
  a.given .request "tune request"
  let t := a.tuning
  let args ← t.args.readAddress
  let rfPolicy ← TunePolicy.ofRaw t.rfPolicy
  let dspPolicy ← TunePolicy.ofRaw t.dspPolicy
  return ⟨t.target, rfPolicy, t.rf, dspPolicy, t.dsp, args⟩

def readPacket (a : Arguments α) : Except Fault (TxMetadata α) := do
  a.given .metadata "tx metadata"
  let time ← a.packet.time.read
  return ⟨a.packet.hasTime, time, a.packet.startOfBurst, a.packet.endOfBurst⟩

/-- The size of each sample buffer, after a check that all of them are there. -/
def bufferSize (a : Arguments α) (channels itemSize : Nat) : Except Fault Nat :=
  if a.missing.contains .buffers then refuse .missingBuffers
  else if Word.limit ≤ a.samples * itemSize then refuse (.samplesOverflow a.samples)
  else match (List.range channels).find? fun i => a.missing.contains (.buffer i) with
    | some i => refuse (.missingBuffer i)
    | none => .ok (a.samples * itemSize)

/-- The contents of the lent buffers, each of a given size. -/
def lentBuffers (a : Arguments α) (channels size : Nat) : List (List UInt8) :=
  (List.range channels).map fun i => (List.range size).map (a.lent i)

end Arguments

end SoftRadio.Flat
