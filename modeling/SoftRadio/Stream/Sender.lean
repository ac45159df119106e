import SoftRadio.Stream.Command
import SoftRadio.Stream.Args
import SoftRadio.Time.Clock
import SoftRadio.Word

/-!
Transmit streams.  Samples are counted and dropped.  The end of a burst is
acknowledged, once for each channel, at the time at which its last sample
would have left; a packet whose time has passed is reported instead, and
ends the burst.  The reports wait in a queue of limited length.
-/

namespace SoftRadio

/-- The burst being sent: whether there is one, its start, and its samples so far. -/
structure Burst (α : Type) where
  active : Bool
  start : TimeSpec α
  sent : Nat
  deriving Repr

def Burst.none {α : Type} [Scalar α] : Burst α := ⟨false, TimeSpec.zero, 0⟩

structure Sender (α : Type) where
  channels : List Nat
  /-- The motherboard whose clock counts. -/
  board : Nat
  format : SampleFormat
  rate : α
  frameSize : Nat
  burst : Burst α
  events : List (AsyncMetadata α)
  deriving Repr

namespace Sender

variable {α : Type} [Scalar α]

/-- Reports that wait at most; further ones are dropped. -/
def queueDepth : Nat := 256

def make (channels : List Nat) (board : Nat) (format : SampleFormat) (rate : α)
    (frameSize : Nat) : Sender α :=
  { channels, board, format, rate, frameSize, burst := Burst.none, events := [] }

def channelCount (s : Sender α) : Nat := s.channels.length

def itemSize (s : Sender α) : Nat := s.format.itemSize

/-- Add a report to the queue, if there is room. -/
def enqueue (events : List (AsyncMetadata α)) (e : AsyncMetadata α) : List (AsyncMetadata α) :=
  if events.length < queueDepth then events ++ [e] else events

/-- Report an event on every channel. -/
def post (s : Sender α) (event : AsyncEvent) (time : TimeSpec α) : Sender α :=
  let reports := (List.range s.channelCount).map fun c => ⟨c, true, time, event⟩
  { s with events := reports.foldl enqueue s.events }

/-- The burst that a packet belongs to: the current one, or a new one that
starts at the packet's time or, if it has none, now. -/
def burstFor (s : Sender α) (md : TxMetadata α) (now : TimeSpec α) : Burst α :=
  if md.startOfBurst || !s.burst.active then ⟨true, if md.hasTime then md.time else now, 0⟩
  else s.burst

/-- Send a packet of `count` samples on every channel at the device time `now`. -/
def accept (s : Sender α) (count : Nat) (md : TxMetadata α) (now : TimeSpec α) :
    Except Fault Nat × Sender α :=
  if md.hasTime && md.time.isBefore now then
    (.ok 0, { s.post .timeError md.time with burst := Burst.none })
  else
    let burst := s.burstFor md now
    if Word.limit ≤ burst.sent + count then
      (crash "attempt to add with overflow", { s with burst := burst })
    else
      let burst := { burst with sent := burst.sent + count }
      let s := { s with burst := burst }
      if md.endOfBurst then
        match burst.start.addSecs (Scalar.ofInt burst.sent / s.rate) with
        | .error f => (.error f, s)
        | .ok time => (.ok count, { s.post .burstAck time with burst := Burst.none })
      else (.ok count, s)

/-- One transfer: check the buffers and send what they hold. -/
def send (s : Sender α) (sizes : List Nat) (count : Nat) (md : TxMetadata α) (clock : Clock α)
    (elapsed : α) : Except Fault Nat × Sender α :=
  match checkBuffers sizes.length s.channelCount sizes count s.itemSize with
  | .error f => (.error f, s)
  | .ok () =>
    match clock.now elapsed with
    | .error f => (.error f, s)
    | .ok now => s.accept count md now

/-- Take the oldest report, if there is one. -/
def nextEvent (s : Sender α) : Option (AsyncMetadata α) × Sender α :=
  match s.events with
  | [] => (none, s)
  | e :: rest => (some e, { s with events := rest })

end Sender

end SoftRadio
