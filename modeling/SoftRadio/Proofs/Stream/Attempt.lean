import SoftRadio.Proofs.Stream.PartialIssue
import SoftRadio.Station

/-!
# Transfers after a command to start at once

A command is issued on a stream, and then the caller asks for samples, again and again, while no
further command reaches the channels of the stream.  `Attempt` is one such transfer with the world
that it takes place in: whatever else happens there, the clock being set and commands on other
channels included, the mailboxes of the stream stay as they are (`Attempt.Quiet`).

Then a transfer does not depend on its world but for the time at which the command is carried
out.

* `on_of_settled`: with nothing new in the mailboxes, a transfer is `Attempt.answer`: a delivery
  at once, or a timeout.
* `on_of_due`: with a command to start at once in them, the transfer is that of the stream that
  has carried it out.
* `settled_answer`, `produced_answer`: what a transfer does to the stream.
* `Stage.Reachable.due_issueAll`: whatever happened before, such a command is waiting once it is
  issued.
* `Opened.on_attempt`, `Opened.quiet_attempt`: a transfer on an open radio is an attempt, and
  a quiet one if nothing is issued meanwhile.
-/

namespace SoftRadio

variable {σ α : Type}

/-- The states that a world can come to while somebody sleeps in it. -/
inductive World.Reaches (world : World σ α) (s : σ) : σ → Prop
  | here : Reaches world s s
  | sleep {s' : σ} (target : α) : Reaches world s s' → Reaches world s (world.sleep target s')

/-- A transfer as it is asked for, and the world that it takes place in. -/
structure Attempt (σ α : Type) where
  world : World σ α
  state : σ
  /-- How often there is time to look again after the first look. -/
  further : Nat
  buffers : List (List UInt8)
  wanted : Nat
  timeout : α
  onePacket : Bool

/-- The number of samples that a transfer has returned. -/
def Received.count (x : Received α) : Nat :=
  match x.result with
  | .ok (_, n) => n
  | .error _ => 0

/-- The number of samples that some transfers have returned. -/
def Received.total (xs : List (Received α)) : Nat := (xs.map Received.count).sum

namespace Attempt

/-- What is seen at the first look. -/
def scene (a : Attempt σ α) : Scene α := a.world.scene a.state

/-- The samples that are delivered if there are enough: at most one packet, if that is asked. -/
def limit (a : Attempt σ α) (frameSize : Nat) : Nat :=
  if a.onePacket then min a.wanted frameSize else a.wanted

/-- The samples that some attempts deliver if there are enough. -/
def asked (frameSize : Nat) (attempts : List (Attempt σ α)) : Nat :=
  (attempts.map fun a => a.limit frameSize).sum

/-- The buffers are as many as the channels, and long enough. -/
def Accepted (a : Attempt σ α) (r : Receiver α) : Prop :=
  checkBuffers a.buffers.length r.channelCount (a.buffers.map List.length) a.wanted r.itemSize =
    .ok ()

/-- No command reaches some channels during the attempt, nor has any since their mailboxes were as
in `office`. -/
def Quiet (a : Attempt σ α) (channels : List Nat) (office : PostOffice α) : Prop :=
  ∀ s, a.world.Reaches a.state s → ∀ c ∈ channels, (a.world.scene s).office.box c = office.box c

theorem Quiet.first {a : Attempt σ α} {channels : List Nat} {office : PostOffice α}
    (h : a.Quiet channels office) : ∀ c ∈ channels, a.scene.office.box c = office.box c :=
  h a.state .here

variable [Scalar α]

/-- The device time at the first look. -/
def now (a : Attempt σ α) : Except Fault (TimeSpec α) := a.scene.clock.now a.scene.elapsed

/-- The transfer on a stream. -/
def on (a : Attempt σ α) (r : Receiver α) : Received α :=
  (r.recv a.world (a.further + 1) a.state a.buffers a.wanted a.timeout a.onePacket).1

/-- The same transfer if there is nothing to wait for: what there is to deliver is delivered, and
without anything to carry out it times out. -/
def answer (a : Attempt σ α) (r : Receiver α) : Received α :=
  if r.run.mode = .idle then
    ⟨.ok ({ (RxMetadata.blank : RxMetadata α) with error := .timeout }, 0), a.buffers, r⟩
  else r.deliver a.wanted a.onePacket a.buffers

/-- Transfers one after the other. -/
def transfers : List (Attempt σ α) → Receiver α → List (Received α)
  | [], _ => []
  | a :: attempts, r => a.on r :: transfers attempts (a.on r).receiver

end Attempt

namespace Receiver

/-! ## One look -/

theorem numbers_congr {channels : List Nat} {office office' : PostOffice α}
    (h : ∀ c ∈ channels, office'.box c = office.box c) :
    office'.numbers channels = office.numbers channels :=
  List.map_congr_left fun c hc => congrArg Mailbox.number (h c hc)

theorem taken_congr (run : Run α) {channels : List Nat} {office office' : PostOffice α}
    (h : ∀ c ∈ channels, office'.box c = office.box c) :
    taken run channels office' = taken run channels office := by
  unfold taken
  rw [List.map_congr_left h]

/-- A stream that has seen everything in its mailboxes, and that waits for no start. -/
structure Settled (r : Receiver α) (office : PostOffice α) : Prop where
  seen : r.run.seen = office.numbers r.channels
  late : r.run.late = false
  waits : r.run.mode = .idle ∨ r.run.startAt = none

/-- A stream that has seen everything in its mailboxes, and is not late. -/
structure Abreast (r : Receiver α) (office : PostOffice α) : Prop where
  seen : r.run.seen = office.numbers r.channels
  late : r.run.late = false

theorem Settled.abreast {r : Receiver α} {office : PostOffice α} (h : r.Settled office) :
    r.Abreast office :=
  ⟨h.seen, h.late⟩

/-- A stream whose next look takes out a command to start at once. -/
structure Due (r : Receiver α) (office : PostOffice α) (command : StreamCommand α) : Prop where
  taken : taken r.run r.channels office = some (command, false)
  late : r.run.late = false
  immediate : command.immediate

/-- The run after a command to start at once has been carried out, at a device time, with some
numbers seen. -/
def begun (run : Run α) (command : StreamCommand α) (start : TimeSpec α) (seen : List Nat) :
    Run α :=
  if command.mode = .stopContinuous then { run with seen := seen, mode := .idle }
  else { run with
    seen := seen
    mode := modeOf command
    startAt := none
    streamStart := start
    produced := 0
    firstPacket := true }

/-- The stream that has carried out a command to start at once. -/
def started (r : Receiver α) (command : StreamCommand α) (start : TimeSpec α)
    (office : PostOffice α) : Receiver α :=
  { r with run := begun r.run command start (office.numbers r.channels) }

/-- Every command but the one to stop leaves something to deliver, or nothing of something. -/
theorem modeOf_ne_idle {command : StreamCommand α} (h : command.mode ≠ .stopContinuous) :
    modeOf command ≠ .idle := by
  unfold modeOf
  cases hm : command.mode with
  | stopContinuous => exact absurd hm h
  | startContinuous | samplesAndDone | samplesAndMore => simp

/-- Every command but the one to stop sets the mode it asks for, and the counters. -/
theorem run_started (r : Receiver α) {command : StreamCommand α}
    (h : command.mode ≠ .stopContinuous) (start : TimeSpec α) (office : PostOffice α) :
    (r.started command start office).run =
      { r.run with
        seen := office.numbers r.channels
        mode := modeOf command
        startAt := none
        streamStart := start
        produced := 0
        firstPacket := true } := by
  unfold started begun
  simp only [if_neg h]

theorem settled_started {r : Receiver α} (h : r.run.late = false) (command : StreamCommand α)
    (start : TimeSpec α) (office : PostOffice α) :
    (r.started command start office).Settled office := by
  unfold started begun
  constructor
  case seen => dsimp only; split <;> rfl
  case late => dsimp only; split <;> exact h
  case waits =>
    dsimp only
    split
    · exact Or.inl rfl
    · exact Or.inr rfl

variable [Scalar α]

/-- With nothing new in the mailboxes, a look goes on from where the stream is. -/
theorem Abreast.pass_eq {r : Receiver α} {office : PostOffice α} (h : r.Abreast office)
    {scene : Scene α} (hscene : ∀ c ∈ r.channels, scene.office.box c = office.box c) :
    pass r.run r.channels scene = proceed scene.clock scene.elapsed (.ok (), r.run) := by
  have hseen : r.run.see (scene.office.numbers r.channels) = r.run := by
    rw [numbers_congr hscene, ← h.seen]
    rfl
  rw [Receiver.pass_eq, hseen, taken_congr _ hscene, taken_of_seen h.seen]
  rfl

/-- A stream with nothing to wait for can go on at once, if there is anything to go on with. -/
theorem Settled.proceed_eq {r : Receiver α} {office : PostOffice α} (h : r.Settled office)
    (clock : Clock α) (elapsed : α) : proceed clock elapsed (.ok (), r.run) =
      (if r.run.mode = .idle then .ok .idle else .ok .ready, r.run) := by
  by_cases hm : r.run.mode = .idle
  · simp [proceed, h.late, hm]
  · simp [proceed, h.late, hm, h.waits.resolve_left hm]

theorem pass_of_settled {r : Receiver α} {office : PostOffice α} (h : r.Settled office)
    {scene : Scene α} (hscene : ∀ c ∈ r.channels, scene.office.box c = office.box c) :
    pass r.run r.channels scene =
      (if r.run.mode = .idle then .ok .idle else .ok .ready, r.run) :=
  (h.abreast.pass_eq hscene).trans (h.proceed_eq scene.clock scene.elapsed)

theorem pass_of_due {r : Receiver α} {office : PostOffice α} {command : StreamCommand α}
    (h : r.Due office command) {scene : Scene α}
    (hscene : ∀ c ∈ r.channels, scene.office.box c = office.box c) {start : TimeSpec α}
    (hstart : scene.clock.now scene.elapsed = .ok start) :
    pass r.run r.channels scene =
      (if (r.started command start office).run.mode = .idle then .ok .idle else .ok .ready,
        (r.started command start office).run) := by
  have hbegin : begin (r.run.see (office.numbers r.channels)) command scene.clock scene.elapsed =
      (.ok (), (r.started command start office).run) := by
    unfold begin started begun
    by_cases hstop : command.mode = .stopContinuous
    · simp [hstop, modeOf, Run.see]
    · simp [hstop, h.immediate, hstart, Run.see]
  rw [pass_eq, numbers_congr hscene, taken_congr _ hscene, h.taken]
  show proceed scene.clock scene.elapsed (begin _ command scene.clock scene.elapsed) = _
  rw [hbegin]
  exact (settled_started h.late command start office).proceed_eq scene.clock scene.elapsed

end Receiver

variable [Scalar α]

namespace Attempt

open Receiver

/-! ## One transfer -/

/-- A transfer whose buffers are refused returns the refusal, and nothing else happens. -/
theorem on_of_refused {a : Attempt σ α} {r : Receiver α} {f : Fault}
    (h : checkBuffers a.buffers.length r.channelCount (a.buffers.map List.length) a.wanted
      r.itemSize = .error f) : a.on r = ⟨.error f, a.buffers, r⟩ := by
  unfold on recv
  rw [h]

theorem refused_or_accepted (a : Attempt σ α) (r : Receiver α) :
    (∃ f, checkBuffers a.buffers.length r.channelCount (a.buffers.map List.length) a.wanted
        r.itemSize = .error f ∧ a.on r = ⟨.error f, a.buffers, r⟩) ∨ a.Accepted r := by
  cases hcheck : checkBuffers a.buffers.length r.channelCount (a.buffers.map List.length) a.wanted
      r.itemSize with
  | error f => exact Or.inl ⟨f, rfl, on_of_refused hcheck⟩
  | ok => exact Or.inr hcheck

/-- A transfer whose first look comes to an end, one way or the other. -/
theorem on_of_pass {a : Attempt σ α} {r r' : Receiver α} {office : PostOffice α}
    (haccepted : a.Accepted r) (hquiet : a.Quiet r.channels office)
    (hr' : r' = { r with run := r'.run }) (hseen : r'.run.seen = office.numbers r.channels)
    (hpass : pass r.run r.channels a.scene =
      (if r'.run.mode = .idle then .ok .idle else .ok .ready, r'.run)) :
    a.on r = a.answer r' := by
  have hscene : a.world.scene a.state = a.scene := rfl
  unfold on recv answer
  rw [show checkBuffers _ _ _ _ _ = .ok () from haccepted]
  dsimp only
  rw [Receiver.listen, hscene, hpass]
  by_cases hm : r'.run.mode = .idle
  · -- nothing comes during the sleep, so that it ends at the deadline
    have hnews : ∀ target, ({ r with run := r'.run } : Receiver α).hasNews
        (a.world.scene (a.world.sleep target a.state)).office = false := by
      intro target
      have hsame := numbers_congr (hquiet _ (.sleep target .here))
      simp [hasNews, hsame, hseen]
    simp only [if_pos hm, hnews]
    rw [← hr']
    rfl
  · simp only [if_neg hm]
    rw [← hr']

theorem on_of_settled {a : Attempt σ α} {r : Receiver α} {office : PostOffice α}
    (h : r.Settled office) (haccepted : a.Accepted r) (hquiet : a.Quiet r.channels office) :
    a.on r = a.answer r :=
  on_of_pass haccepted hquiet rfl h.seen (pass_of_settled h hquiet.first)

theorem on_of_due {a : Attempt σ α} {r : Receiver α} {office : PostOffice α}
    {command : StreamCommand α} (h : r.Due office command) (haccepted : a.Accepted r)
    (hquiet : a.Quiet r.channels office) {start : TimeSpec α} (hstart : a.now = .ok start) :
    a.on r = a.answer (r.started command start office) :=
  on_of_pass haccepted hquiet rfl (settled_started h.late command start office).seen
    (pass_of_due h hquiet.first hstart)

end Attempt

/-! ## What a delivery changes -/

namespace Receiver

omit [Scalar α] in
/-- Of a run, a delivery changes the mode, the number of samples, and what is first. -/
theorem advance_eq (run : Run α) (count : Nat) : (advance run count).1 =
    { run with
      mode := (advance run count).1.mode
      produced := run.produced + count
      firstPacket := false } := by
  unfold advance
  dsimp only
  split
  · split <;> rfl
  · rfl

omit [Scalar α] in
/-- A run with nothing to carry out has nothing to carry out after it either. -/
theorem mode_advance_of_idle {run : Run α} (h : run.mode = .idle) (count : Nat) :
    (advance run count).1.mode = .idle := by
  unfold advance
  simp only [h]

omit [Scalar α] in
theorem Settled.advance {r : Receiver α} {office : PostOffice α} (h : r.Settled office)
    (count : Nat) : ({ r with run := (advance r.run count).1 } : Receiver α).Settled office := by
  constructor
  case seen => exact (seen_advance r.run count).trans h.seen
  case late =>
    show (Receiver.advance r.run count).1.late = false
    rw [advance_eq]
    exact h.late
  case waits =>
    show (Receiver.advance r.run count).1.mode = .idle ∨
      (Receiver.advance r.run count).1.startAt = none
    refine h.waits.imp (fun hm => mode_advance_of_idle hm count) fun hs => ?_
    rw [advance_eq]
    exact hs

end Receiver

namespace Attempt

open Receiver

theorem answer_of_idle {r : Receiver α} (h : r.run.mode = .idle) (a : Attempt σ α) :
    a.answer r =
      ⟨.ok ({ (RxMetadata.blank : RxMetadata α) with error := .timeout }, 0), a.buffers, r⟩ :=
  if_pos h

theorem answer_of_ne_idle {r : Receiver α} (h : r.run.mode ≠ .idle) (a : Attempt σ α) :
    a.answer r = r.deliver a.wanted a.onePacket a.buffers :=
  if_neg h

theorem receiver_answer (a : Attempt σ α) (r : Receiver α) :
    (a.answer r).receiver = { r with run := (a.answer r).receiver.run } := by
  unfold answer
  split
  · rfl
  · rcases deliver_receiver r a.wanted a.onePacket a.buffers with ⟨f, -, h⟩ | ⟨md, -, h⟩ <;>
      rw [h]

theorem settled_answer (a : Attempt σ α) {r : Receiver α} {office : PostOffice α}
    (h : r.Settled office) : (a.answer r).receiver.Settled office := by
  unfold answer
  split
  · exact h
  · rcases deliver_receiver r a.wanted a.onePacket a.buffers with ⟨f, -, hr⟩ | ⟨md, -, hr⟩
    · rw [hr]
      exact h
    · rw [hr]
      exact h.advance _

/-- Whatever a transfer returns is counted. -/
theorem produced_answer (a : Attempt σ α) (r : Receiver α) :
    (a.answer r).receiver.run.produced = r.run.produced + (a.answer r).count := by
  unfold answer
  split
  · rfl
  · rcases deliver_receiver r a.wanted a.onePacket a.buffers with ⟨f, hx, hr⟩ | ⟨md, hx, hr⟩
    · rw [hr]
      simp [Received.count, hx]
    · rw [hr]
      simp only [Received.count, hx]
      rw [advance_eq]

theorem length_transfers (attempts : List (Attempt σ α)) (r : Receiver α) :
    (transfers attempts r).length = attempts.length := by
  induction attempts generalizing r with
  | nil => rfl
  | cons a attempts ih => exact congrArg Nat.succ (ih _)

end Attempt

/-! ## After any history -/

namespace Stage

/-- The stages that come about once a stream is opened, by commands and rounds. -/
inductive Reachable : Stage α → Prop
  | opened {boxes : Nat} (before : List (StreamCommand α × TimeSpec α × Nat)) {channels : List Nat}
      (board : Nat) (format : SampleFormat) (rate : α) (frameSize : Nat)
      (hc : ∀ c ∈ channels, c < boxes) :
      Reachable (opened boxes before channels board format rate frameSize)
  | step {s : Stage α} (tick : Tick α) : Reachable s → Reachable (s.step tick)

namespace Reachable

variable {s : Stage α}

theorem inOrder (h : s.Reachable) : s.InOrder := by
  induction h with
  | opened before board format rate frameSize hc =>
    exact inOrder_opened before board format rate frameSize hc
  | step tick _ ih => exact ih.step tick

/-- Lateness is reported by the round that finds it, and forgotten. -/
theorem late (h : s.Reachable) : s.receiver.run.late = false := by
  induction h with
  | opened => rfl
  | @step s tick _ ih =>
    cases tick with
    | post command now channel => exact ih
    | round q => exact Receiver.late_round ih s.office q

/-- A command that reaches one of the channels of a stream is what its next look takes. -/
theorem taken_issueAll (h : s.Reachable) (command : StreamCommand α) (now : TimeSpec α)
    {posted : List Nat} (hposted : ∃ c ∈ posted, c ∈ s.receiver.channels) :
    Receiver.taken s.receiver.run s.receiver.channels (s.office.issueAll command now posted) =
      some (command, Mailbox.isLate command now) := by
  have hany : posted.any (s.receiver.channels.contains ·) = true := by simpa using hposted
  rw [Receiver.taken_issueAll h.inOrder command now posted, if_pos hany]

/-- A command to start at once that reaches one of the channels of a stream is what the stream
carries out next. -/
theorem due_issueAll (h : s.Reachable) {command : StreamCommand α} (himmediate : command.immediate)
    (now : TimeSpec α) {posted : List Nat} (hposted : ∃ c ∈ posted, c ∈ s.receiver.channels) :
    s.receiver.Due (s.office.issueAll command now posted) command where
  taken := by
    have hlate : Mailbox.isLate command now = false := by simp [Mailbox.isLate, himmediate]
    rw [h.taken_issueAll command now hposted, hlate]
  late := h.late
  immediate := himmediate

end Reachable

end Stage

/-! ## Transfers on an open radio -/

namespace Opened

/-- The transfer that is asked of a stream of a radio at some host time. -/
def attempt (o : Opened α) (r : Receiver α) (time : Nat) (request : RecvRequest α)
    (buffers : List (List UInt8)) : Attempt (Waiting α) α where
  world := Waiting.world o.epoch r.board
  state := ⟨o.radio.device, time + HostTime.moment,
    request.agenda.map fun a => { a with time := time + a.time }⟩
  further := HostTime.ofElapsed 0 (boundedWait request.timeout) / HostTime.moment +
    2 * request.agenda.length + 1
  buffers := buffers
  wanted := request.wanted
  timeout := request.timeout
  onePacket := request.onePacket

theorem on_attempt (o : Opened α) {r : Receiver α} (time : Nat) {request : RecvRequest α}
    {buffers : List (List UInt8)} (h : request.buffers r = .ok buffers) :
    let left := o.recv r time request
    (o.attempt r time request buffers).on r = ⟨left.1.1, left.1.2.1, left.2.2⟩ := by
  unfold recv
  rw [h]
  rfl

/-- As long as nothing is to be issued, the radio stays as it is. -/
theorem device_of_reaches {epoch board : Nat} {w w' : Waiting α}
    (h : (Waiting.world epoch board).Reaches w w') (hagenda : w.agenda = []) :
    w'.device = w.device ∧ w'.agenda = [] := by
  induction h with
  | here => exact ⟨rfl, hagenda⟩
  | @sleep w' target _ ih =>
    obtain ⟨hdevice, hrest⟩ := ih
    have hsleep : (Waiting.world epoch board).sleep target w' =
        { w' with time := max w'.time (HostTime.ofElapsed epoch target) + HostTime.moment } := by
      show w'.sleepTo epoch (HostTime.ofElapsed epoch target) = _
      unfold Waiting.sleepTo
      rw [hrest]
    rw [hsleep]
    exact ⟨hdevice, hrest⟩

theorem quiet_attempt (o : Opened α) (r : Receiver α) (time : Nat) {request : RecvRequest α}
    (buffers : List (List UInt8)) (h : request.agenda = []) :
    (o.attempt r time request buffers).Quiet r.channels o.radio.device.office := by
  intro w hreaches c _
  have hagenda : (o.attempt r time request buffers).state.agenda = [] := by
    simp [attempt, h]
  show w.device.office.box c = _
  rw [(device_of_reaches hreaches hagenda).1]
  rfl

end Opened

/-! ## A world that stands still -/

namespace Stage

/-- A stream with packets of three samples at most. -/
def threes : Stage ℚ := opened 1 [] [0] 0 .sc8 1 3

/-- A transfer into one buffer, in a world where nothing happens after five samples have been asked
for. -/
def still (wanted : Nat) (onePacket : Bool) : Attempt Unit ℚ where
  world := ⟨fun _ => ⟨0, Clock.start, threes.office.issueAll five TimeSpec.zero [0]⟩, fun _ s => s⟩
  state := ()
  further := 0
  buffers := [List.replicate (wanted * 2) 0]
  wanted := wanted
  timeout := 0
  onePacket := onePacket

theorem quiet_still (wanted : Nat) (onePacket : Bool) : (still wanted onePacket).Quiet
    threes.receiver.channels (threes.office.issueAll five TimeSpec.zero [0]) :=
  fun _ _ _ _ => rfl

theorem now_still (wanted : Nat) (onePacket : Bool) :
    (still wanted onePacket).now = .ok TimeSpec.zero :=
  TimeSpec.addSecs_zero (n := 0) (by decide)

end Stage

end SoftRadio
