import SoftRadio.Stream.Mailbox
import SoftRadio.Stream.Tone
import SoftRadio.Time.Clock

/-!
Receive streams.  A stream picks up the latest command at its next
transfer, waits for the time at which it is to start, and then delivers
samples of its tone.

One transfer is a sequence of passes.  `Receiver.pass` looks at the
mailboxes and, at most once, at the clock, and says whether samples can be
delivered now, when to look again, or that the command came too late;
`Receiver.listen` repeats it, sleeping in between, until the deadline.
`Receiver.recv` is the whole transfer.
-/

namespace SoftRadio

inductive RunMode where
  | idle
  | continuous
  | finite (remaining : Nat) (endsBurst : Bool)
  deriving DecidableEq, Repr, Inhabited

/-- How far the current command has been carried out. -/
structure Run (α : Type) where
  mode : RunMode
  /-- For each channel the number of the last command seen. -/
  seen : List Nat
  /-- The start, as long as it is waited for. -/
  startAt : Option (TimeSpec α)
  streamStart : TimeSpec α
  produced : Nat
  firstPacket : Bool
  late : Bool
  deriving Repr

structure Receiver (α : Type) where
  /-- For each buffer the index of its mailbox. -/
  channels : List Nat
  /-- The motherboard whose clock counts. -/
  board : Nat
  format : SampleFormat
  rate : α
  /-- Samples of one packet at most. -/
  frameSize : Nat
  run : Run α
  deriving Repr

/-- What a stream can see of its device: the time elapsed, the clock of its
motherboard and the mailboxes. -/
structure Scene (α : Type) where
  elapsed : α
  clock : Clock α
  office : PostOffice α

/-- The world during a transfer: what is seen in a state, and the state
after a sleep that ends at a given elapsed time or, if a command comes,
before it. -/
structure World (σ α : Type) where
  scene : σ → Scene α
  sleep : α → σ → σ

/-- What one look at the stream comes to. -/
inductive Pass (α : Type) where
  /-- The command came after its own start. -/
  | late
  /-- There is nothing to carry out. -/
  | idle
  /-- The start is some seconds away. -/
  | early (delay : α)
  /-- Samples can be delivered. -/
  | ready
  deriving Repr

/-- How the waiting of a transfer ends. -/
inductive Verdict where
  | late
  | timeout
  | ready
  deriving DecidableEq, Repr

/-- What a transfer leaves: its result, the buffers and the stream. -/
structure Received (α : Type) where
  result : Except Fault (RxMetadata α × Nat)
  buffers : List (List UInt8)
  receiver : Receiver α

namespace Receiver

variable {α : Type} [Scalar α] {σ : Type}

/-- A stream on some channels, to which only later commands apply. -/
def make (office : PostOffice α) (channels : List Nat) (board : Nat) (format : SampleFormat)
    (rate : α) (frameSize : Nat) : Receiver α :=
  { channels, board, format, rate, frameSize,
    run := {
      mode := .idle
      seen := office.numbers channels
      startAt := none
      streamStart := TimeSpec.zero
      produced := 0
      firstPacket := true
      late := false } }

def channelCount (r : Receiver α) : Nat := r.channels.length

def itemSize (r : Receiver α) : Nat := r.format.itemSize

/-- Whether a mailbox holds something that the stream has not seen. -/
def hasNews (r : Receiver α) (office : PostOffice α) : Bool :=
  office.numbers r.channels != r.run.seen

/-- The run mode that a command asks for. -/
def modeOf (command : StreamCommand α) : RunMode :=
  match command.mode with
  | .startContinuous => .continuous
  | .stopContinuous => .idle
  | .samplesAndDone => .finite command.count true
  | .samplesAndMore => .finite command.count false

/-- Carry out a command: change the mode, and for a start everything that counts from it.  The
mode has changed even if the clock then gives no time. -/
def begin (run : Run α) (command : StreamCommand α) (clock : Clock α) (elapsed : α) :
    Except Fault Unit × Run α :=
  let run := { run with mode := modeOf command }
  if command.mode = .stopContinuous then (.ok (), run)
  else
    match if command.immediate then clock.now elapsed else .ok command.time with
    | .error f => (.error f, run)
    | .ok start =>
      (.ok (), { run with
        startAt := if command.immediate then none else some command.time
        streamStart := start
        produced := 0
        firstPacket := true })

/-- What a look at the mailboxes takes out: the newest command not seen so far, and whether it
was late. -/
def taken (run : Run α) (channels : List Nat) (office : PostOffice α) :
    Option (StreamCommand α × Bool) :=
  (newestUnseen (channels.map office.box) run.seen none).bind fun box =>
    box.command.map fun command => (command, box.late)

/-- Do what was taken out of the mailboxes, if anything. -/
def carryOut (run : Run α) (clock : Clock α) (elapsed : α) :
    Option (StreamCommand α × Bool) → Except Fault Unit × Run α
  | none => (.ok (), run)
  | some (_, true) => (.ok (), { run with mode := .idle, late := true })
  | some (command, false) => begin run command clock elapsed

/-- Take whatever was issued since the last time, and apply the newest of it. -/
def poll (run : Run α) (channels : List Nat) (scene : Scene α) : Except Fault Unit × Run α :=
  carryOut { run with seen := scene.office.numbers channels } scene.clock scene.elapsed
    (taken run channels scene.office)

/-- What a look at the stream comes to after the mailboxes have been looked at. -/
def proceed (clock : Clock α) (elapsed : α) :
    Except Fault Unit × Run α → Except Fault (Pass α) × Run α
  | (.error f, run) => (.error f, run)
  | (.ok (), run) =>
    if run.late then (.ok .late, { run with late := false })
    else if run.mode = .idle then (.ok .idle, run)
    else match run.startAt with
      | none => (.ok .ready, run)
      | some start =>
        match clock.now elapsed >>= fun now => now.secsUntil start with
        | .error f => (.error f, run)
        | .ok delay =>
          if Scalar.lt (Scalar.ofInt 0) delay then (.ok (.early delay), run)
          else (.ok .ready, { run with startAt := none })

/-- Look at the stream once. -/
def pass (run : Run α) (channels : List Nat) (scene : Scene α) :
    Except Fault (Pass α) × Run α :=
  proceed scene.clock scene.elapsed (poll run channels scene)

/-- Look again and again until there is something to report.  A start that
lies beyond the deadline is not waited for. -/
def listen (world : World σ α) (deadline : α) :
    Nat → σ → Receiver α → Except Fault Verdict × σ × Receiver α
  | 0, s, r => (.ok .timeout, s, r)
  | fuel + 1, s, r =>
    let scene := world.scene s
    let (outcome, run) := pass r.run r.channels scene
    let r := { r with run := run }
    match outcome with
    | .error f => (.error f, s, r)
    | .ok .late => (.ok .late, s, r)
    | .ok .ready => (.ok .ready, s, r)
    | .ok .idle =>
      let s := world.sleep deadline s
      if r.hasNews (world.scene s).office then listen world deadline fuel s r
      else (.ok .timeout, s, r)
    | .ok (.early delay) =>
      let wake := scene.elapsed + boundedWait delay
      if Scalar.lt deadline wake then (.ok .timeout, world.sleep deadline s, r)
      else listen world deadline fuel (world.sleep wake s) r

/-- How many samples the next transfer delivers of the `wanted`. -/
def portion (r : Receiver α) (wanted : Nat) (onePacket : Bool) : Nat :=
  let count := match r.run.mode with
    | .finite remaining _ => min wanted remaining
    | _ => wanted
  if onePacket then min count r.frameSize else count

/-- Write samples to the front of every buffer. -/
def fill (r : Receiver α) (count : Nat) (buffers : List (List UInt8)) : List (List UInt8) :=
  buffers.zipIdx.map fun (buffer, i) =>
    Tone.samples r.format i r.run.produced count ++ buffer.drop (count * r.itemSize)

/-- The run after `count` samples, and whether they end the burst. -/
def advance (run : Run α) (count : Nat) : Run α × Bool :=
  let run := { run with firstPacket := false, produced := run.produced + count }
  match run.mode with
  | .finite remaining endsBurst =>
    if remaining - count = 0 then ({ run with mode := .idle }, endsBurst)
    else ({ run with mode := .finite (remaining - count) endsBurst }, false)
  | _ => (run, false)

/-- Deliver samples. -/
def deliver (r : Receiver α) (wanted : Nat) (onePacket : Bool) (buffers : List (List UInt8)) :
    Received α :=
  let count := r.portion wanted onePacket
  let filled := r.fill count buffers
  match r.run.streamStart.addSecs (Scalar.ofInt r.run.produced / r.rate) with
  | .error f => ⟨.error f, filled, r⟩
  | .ok time =>
    let (run, ends) := advance r.run count
    let md := { (RxMetadata.blank : RxMetadata α) with
      hasTime := true
      time := time
      startOfBurst := r.run.firstPacket
      endOfBurst := ends }
    ⟨.ok (md, count), filled, { r with run := run }⟩

/-- One transfer: check the buffers, wait for something to deliver, and
deliver it. -/
def recv (world : World σ α) (fuel : Nat) (s : σ) (r : Receiver α)
    (buffers : List (List UInt8)) (wanted : Nat) (timeout : α) (onePacket : Bool) :
    Received α × σ :=
  match checkBuffers buffers.length r.channelCount (buffers.map List.length) wanted r.itemSize with
  | .error f => (⟨.error f, buffers, r⟩, s)
  | .ok () =>
    let deadline := (world.scene s).elapsed + boundedWait timeout
    match listen world deadline fuel s r with
    | (.error f, s, r) => (⟨.error f, buffers, r⟩, s)
    | (.ok .late, s, r) =>
      (⟨.ok ({ (RxMetadata.blank : RxMetadata α) with error := .lateCommand }, 0), buffers, r⟩, s)
    | (.ok .timeout, s, r) =>
      (⟨.ok ({ (RxMetadata.blank : RxMetadata α) with error := .timeout }, 0), buffers, r⟩, s)
    | (.ok .ready, s, r) => (r.deliver wanted onePacket buffers, s)

/-- The metadata that the caller has lent, after the same transfer.  They are cleared once the
buffers have passed the check, and filled in as the transfer comes to something; a time that cannot
be computed is announced all the same. -/
def metadataAfter (world : World σ α) (fuel : Nat) (s : σ) (r : Receiver α)
    (buffers : List (List UInt8)) (wanted : Nat) (timeout : α) (onePacket : Bool)
    (md : RxMetadata α) : RxMetadata α :=
  match checkBuffers buffers.length r.channelCount (buffers.map List.length) wanted r.itemSize with
  | .error _ => md
  | .ok () =>
    let deadline := (world.scene s).elapsed + boundedWait timeout
    match listen world deadline fuel s r with
    | (.error _, _, _) => RxMetadata.blank
    | (.ok .late, _, _) => { (RxMetadata.blank : RxMetadata α) with error := .lateCommand }
    | (.ok .timeout, _, _) => { (RxMetadata.blank : RxMetadata α) with error := .timeout }
    | (.ok .ready, _, r) =>
      match (r.deliver wanted onePacket buffers).result with
      | .ok (md, _) => md
      | .error _ => { (RxMetadata.blank : RxMetadata α) with hasTime := true }

/-- They are what a transfer that succeeds returns. -/
theorem metadataAfter_of_recv {world : World σ α} {fuel : Nat} {s : σ} {r : Receiver α}
    {buffers : List (List UInt8)} {wanted : Nat} {timeout : α} {onePacket : Bool}
    {md : RxMetadata α} {n : Nat}
    (h : (r.recv world fuel s buffers wanted timeout onePacket).1.result = .ok (md, n))
    (before : RxMetadata α) :
    r.metadataAfter world fuel s buffers wanted timeout onePacket before = md := by
  unfold recv at h
  unfold metadataAfter
  cases hcheck : checkBuffers buffers.length r.channelCount (buffers.map List.length) wanted
      r.itemSize with
  | error f =>
    rw [hcheck] at h
    cases h
  | ok =>
    rw [hcheck] at h
    dsimp only at h ⊢
    revert h
    match listen world ((world.scene s).elapsed + boundedWait timeout) fuel s r with
    | (.error f, s', r') => exact fun h => by cases h
    | (.ok .late, s', r') => exact fun h => by cases h; rfl
    | (.ok .timeout, s', r') => exact fun h => by cases h; rfl
    | (.ok .ready, s', r') =>
      intro h
      have hresult : (r'.deliver wanted onePacket buffers).result = .ok (md, n) := h
      simp only [hresult]

end Receiver

end SoftRadio
