import SoftRadio.Proofs.Exact
import SoftRadio.Proofs.Stream.Round

/-!
# A command that is looked for while it is issued

A command that is issued on a stream goes to the mailboxes of its channels one after another, and
the stream may look at them in between.  `Stage` is a stream with its mailboxes, and `schedule`
the issue of one command, with rounds of transfers after each of its steps.

Every mailbox gives the command a number of its own, so that a look after one step takes the
command, and a look after the next step takes it again.

* `run_schedule_nil`: without rounds in between, the steps are `PostOffice.issueAll`.
* `applications_schedule`: the command is carried out once for every step that is followed by
  a round before the next step.
* `carriedOut_once_iff`: it is carried out at most once if and only if all rounds come after the
  same step, and a bounded command then delivers no more than it asks for.
* `carriedOut_twice`: a stream on two channels that carries out a command twice.
-/

namespace SoftRadio

variable {α : Type} [Scalar α]

/-- A stream and the mailboxes of its device. -/
structure Stage (α : Type) where
  office : PostOffice α
  receiver : Receiver α

/-- What can happen on a stage: a command gets into a mailbox, or there is a round. -/
inductive Tick (α : Type) where
  | post (command : StreamCommand α) (now : TimeSpec α) (channel : Nat)
  | round (q : Round α)

namespace Stage

def step (s : Stage α) : Tick α → Stage α
  | .post command now channel => { s with office := s.office.issue command now channel }
  | .round q => { s with receiver := (s.receiver.round s.office q).2 }

def run (ticks : List (Tick α)) (s : Stage α) : Stage α := ticks.foldl step s

/-- The command that is carried out, and whether it is late. -/
def applied (s : Stage α) : Tick α → Option (StreamCommand α × Bool)
  | .post .. => none
  | .round _ => Receiver.taken s.receiver.run s.receiver.channels s.office

/-- The number of samples delivered. -/
def delivered (s : Stage α) : Tick α → Nat
  | .post .. => 0
  | .round q => (s.receiver.round s.office q).1.count

/-- The commands carried out, in order. -/
def applications : List (Tick α) → Stage α → List (StreamCommand α × Bool)
  | [], _ => []
  | tick :: ticks, s => (s.applied tick).toList ++ applications ticks (s.step tick)

/-- The number of samples delivered in all. -/
def total : List (Tick α) → Stage α → Nat
  | [], _ => 0
  | tick :: ticks, s => s.delivered tick + total ticks (s.step tick)

/-- The steps of an issue, each with the channel and the rounds that follow it. -/
def schedule (command : StreamCommand α) (now : TimeSpec α) :
    List (Nat × List (Round α)) → List (Tick α)
  | [] => []
  | (channel, rounds) :: rest =>
    .post command now channel :: (rounds.map .round ++ schedule command now rest)

/-- A stream just opened on a device with some commands issued before. -/
def opened (boxes : Nat) (before : List (StreamCommand α × TimeSpec α × Nat)) (channels : List Nat)
    (board : Nat) (format : SampleFormat) (rate : α) (frameSize : Nat) : Stage α :=
  let office := before.foldl (fun p (command, now, channel) => p.issue command now channel)
    (PostOffice.make boxes)
  ⟨office, Receiver.make office channels board format rate frameSize⟩

/-- The steps that receivers have carried out: those followed by a round before the next. -/
def looks (steps : List (Nat × List (Round α))) : Nat := steps.countP fun p => !p.2.isEmpty

theorem applications_append (ticks ticks' : List (Tick α)) (s : Stage α) :
    applications (ticks ++ ticks') s =
      applications ticks s ++ applications ticks' (run ticks s) := by
  induction ticks generalizing s with
  | nil => rfl
  | cons tick ticks ih =>
    simp only [List.cons_append, applications, ih, List.append_assoc]
    rfl

theorem total_append (ticks ticks' : List (Tick α)) (s : Stage α) :
    total (ticks ++ ticks') s = total ticks s + total ticks' (run ticks s) := by
  induction ticks generalizing s with
  | nil => simp [total, run]
  | cons tick ticks ih =>
    simp only [List.cons_append, total, ih, Nat.add_assoc]
    rfl

/-- Without rounds in between, the steps issue the command on all channels. -/
theorem run_schedule_nil (command : StreamCommand α) (now : TimeSpec α) (channels : List Nat)
    (s : Stage α) :
    run (schedule command now (channels.map fun c => (c, []))) s =
      { s with office := s.office.issueAll command now channels } := by
  induction channels generalizing s with
  | nil => rfl
  | cons c channels ih =>
    show run (schedule command now (channels.map fun c => (c, [])))
      (s.step (.post command now c)) = _
    rw [ih]
    rfl

/-! ## Order -/

/-- The stream and its mailboxes are in order. -/
def InOrder (s : Stage α) : Prop := s.receiver.InOrder s.office

theorem InOrder.step {s : Stage α} (h : s.InOrder) (tick : Tick α) : (s.step tick).InOrder := by
  cases tick with
  | post command now channel => exact Receiver.InOrder.issue h command now channel
  | round q =>
    exact Receiver.InOrder.of_seen h (Receiver.channels_round _ _ q) (Receiver.seen_round _ _ q)

theorem InOrder.run {s : Stage α} (h : s.InOrder) (ticks : List (Tick α)) :
    (run ticks s).InOrder := by
  induction ticks generalizing s with
  | nil => exact h
  | cons tick ticks ih => exact ih (h.step tick)

theorem channels_step (s : Stage α) (tick : Tick α) :
    (s.step tick).receiver.channels = s.receiver.channels := by
  cases tick with
  | post command now channel => rfl
  | round q => exact Receiver.channels_round _ _ q

theorem channels_run (ticks : List (Tick α)) (s : Stage α) :
    (run ticks s).receiver.channels = s.receiver.channels := by
  induction ticks generalizing s with
  | nil => rfl
  | cons tick ticks ih => exact (ih (s.step tick)).trans (channels_step s tick)

theorem inOrder_opened {boxes : Nat} (before : List (StreamCommand α × TimeSpec α × Nat))
    {channels : List Nat} (board : Nat) (format : SampleFormat) (rate : α) (frameSize : Nat)
    (hc : ∀ c ∈ channels, c < boxes) :
    (opened boxes before channels board format rate frameSize).InOrder := by
  have hoffice : ∀ (p : PostOffice α), p.Numbered → p.boxes.length = boxes →
      (before.foldl (fun p (command, now, channel) => p.issue command now channel) p).Numbered ∧
      (before.foldl (fun p (command, now, channel) =>
        p.issue command now channel) p).boxes.length = boxes := by
    induction before with
    | nil => exact fun p hp hl => ⟨hp, hl⟩
    | cons m before ih =>
      intro p hp hl
      exact ih _ (hp.issue m.1 m.2.1 m.2.2) ((p.length_issue m.1 m.2.1 m.2.2).trans hl)
  obtain ⟨hn, hl⟩ := hoffice (PostOffice.make boxes) (PostOffice.numbered_make boxes)
    (by simp [PostOffice.make])
  refine Receiver.inOrder_make board format rate frameSize hn fun c hmem => ?_
  rw [hl]
  exact hc c hmem

/-! ## Rounds between two steps -/

/-- Nothing is carried out by rounds with nothing new, and they deliver what is owed. -/
theorem rounds_of_seen (rounds : List (Round α)) (s : Stage α)
    (h : s.receiver.run.seen = s.office.numbers s.receiver.channels) :
    applications (rounds.map .round) s = [] ∧
      (s.receiver.run.mode ≠ .continuous →
        total (rounds.map .round) s ≤ s.receiver.run.mode.owed) := by
  induction rounds generalizing s with
  | nil => exact ⟨rfl, fun _ => Nat.zero_le _⟩
  | cons q rounds ih =>
    have htaken := Receiver.taken_of_seen h
    have hseen : (s.step (.round q)).receiver.run.seen =
        (s.step (.round q)).office.numbers (s.step (.round q)).receiver.channels := by
      rw [channels_step]
      exact Receiver.seen_round _ _ q
    obtain ⟨happ, htotal⟩ := ih (s.step (.round q)) hseen
    have hmode := Receiver.mode_pass s.receiver.run s.receiver.channels
      ⟨q.elapsed, q.clock, s.office⟩
    rw [htaken] at hmode
    dsimp only at hmode
    constructor
    · simp only [List.map_cons, applications, applied, htaken, happ]
      rfl
    · intro hc
      rw [← hmode] at hc
      obtain ⟨howed, hc'⟩ := Receiver.delivered_add_owed_round hc
      have hrest : total (rounds.map .round) (s.step (.round q)) ≤
          (s.receiver.round s.office q).2.run.mode.owed := htotal hc'
      rw [hmode] at howed
      show (s.receiver.round s.office q).1.count + total (rounds.map .round) (s.step (.round q)) ≤ _
      omega

/-- After a step, the first round carries out the command and the others do not. -/
theorem rounds_after_post {s : Stage α} (h : s.InOrder) (command : StreamCommand α)
    (now : TimeSpec α) {channel : Nat} (hc : channel ∈ s.receiver.channels)
    (q : Round α) (rounds : List (Round α)) :
    applications ((q :: rounds).map .round) (s.step (.post command now channel)) =
        [(command, Mailbox.isLate command now)] ∧
      (command.mode = .samplesAndDone →
        total ((q :: rounds).map .round) (s.step (.post command now channel)) ≤ command.count) := by
  have htaken : Receiver.taken (s.step (.post command now channel)).receiver.run
      (s.step (.post command now channel)).receiver.channels
      (s.step (.post command now channel)).office =
        some (command, Mailbox.isLate command now) :=
    Receiver.taken_issue_of_mem h command now hc
  generalize s.step (.post command now channel) = s' at htaken ⊢
  have hseen : (s'.step (.round q)).receiver.run.seen =
      (s'.step (.round q)).office.numbers (s'.step (.round q)).receiver.channels := by
    rw [channels_step]
    exact Receiver.seen_round _ _ q
  obtain ⟨happ, htotal⟩ := rounds_of_seen rounds (s'.step (.round q)) hseen
  have hmode := Receiver.mode_pass s'.receiver.run s'.receiver.channels
    ⟨q.elapsed, q.clock, s'.office⟩
  rw [htaken] at hmode
  constructor
  · simp only [List.map_cons, applications, applied, htaken, happ]
    rfl
  · intro hdone
    have hbounded : (Receiver.pass s'.receiver.run s'.receiver.channels
        ⟨q.elapsed, q.clock, s'.office⟩).2.mode ≠ .continuous ∧
        (Receiver.pass s'.receiver.run s'.receiver.channels
          ⟨q.elapsed, q.clock, s'.office⟩).2.mode.owed ≤ command.count := by
      rw [hmode]
      cases Mailbox.isLate command now with
      | true => simp [RunMode.owed]
      | false => simp [Receiver.modeOf, hdone, RunMode.owed]
    obtain ⟨howed, hcontinuous⟩ := Receiver.delivered_add_owed_round hbounded.1
    have hrest : total (rounds.map .round) (s'.step (.round q)) ≤
        (s'.receiver.round s'.office q).2.run.mode.owed := htotal hcontinuous
    show (s'.receiver.round s'.office q).1.count +
      total (rounds.map .round) (s'.step (.round q)) ≤ _
    omega

/-- The command is carried out once for every step that is followed by a round before the next
step, and delivers each time what it asks for at most. -/
theorem applications_schedule (command : StreamCommand α) (now : TimeSpec α)
    (steps : List (Nat × List (Round α))) (s : Stage α) (h : s.InOrder)
    (hc : ∀ p ∈ steps, p.1 ∈ s.receiver.channels) :
    applications (schedule command now steps) s =
        List.replicate (looks steps) (command, Mailbox.isLate command now) ∧
      (command.mode = .samplesAndDone →
        total (schedule command now steps) s ≤ looks steps * command.count) := by
  induction steps generalizing s with
  | nil => exact ⟨rfl, fun _ => Nat.zero_le _⟩
  | cons p steps ih =>
    obtain ⟨channel, rounds⟩ := p
    have hpost := h.step (.post command now channel)
    have hrest := ih (run (rounds.map .round) (s.step (.post command now channel)))
      (hpost.run (rounds.map .round)) (by
        intro p hp
        rw [channels_run, channels_step]
        exact hc p (List.mem_cons_of_mem _ hp))
    have happ : applications (schedule command now ((channel, rounds) :: steps)) s =
        applications (rounds.map .round) (s.step (.post command now channel)) ++
          List.replicate (looks steps) (command, Mailbox.isLate command now) := by
      rw [← hrest.1, ← applications_append]
      rfl
    have htotal : total (schedule command now ((channel, rounds) :: steps)) s =
        total (rounds.map .round) (s.step (.post command now channel)) +
          total (schedule command now steps)
            (run (rounds.map .round) (s.step (.post command now channel))) := by
      rw [← total_append]
      show 0 + _ = _
      rw [Nat.zero_add]
    rw [happ, htotal]
    cases rounds with
    | nil =>
      refine ⟨rfl, fun hdone => ?_⟩
      have hrest' := hrest.2 hdone
      have hlooks : looks ((channel, []) :: steps) = looks steps := rfl
      rw [hlooks]
      show 0 + _ ≤ _
      omega
    | cons q rounds =>
      have hfirst := rounds_after_post h command now (hc _ List.mem_cons_self) q rounds
      have hlooks : looks ((channel, q :: rounds) :: steps) = looks steps + 1 := by
        simp [looks]
      rw [hfirst.1, hlooks]
      refine ⟨rfl, fun hdone => ?_⟩
      have hrest' := hrest.2 hdone
      have hfirst' := hfirst.2 hdone
      rw [Nat.add_mul, Nat.one_mul, Nat.add_comm (looks steps * command.count)]
      exact Nat.add_le_add hfirst' hrest'

/-- When a command is carried out at most once.  A stream is opened on some channels, then there
are commands and rounds of any kind, and then one command is issued on its channels, with some
rounds after each step: at most one round carries it out if and only if at most one of the steps
is followed by rounds before the next, and then a command for a number of samples does not
deliver more of them. -/
theorem carriedOut_once_iff (boxes : Nat) (before : List (StreamCommand α × TimeSpec α × Nat))
    (channels : List Nat) (board : Nat) (format : SampleFormat) (rate : α) (frameSize : Nat)
    (hc : ∀ c ∈ channels, c < boxes) (prior : List (Tick α)) (command : StreamCommand α)
    (now : TimeSpec α) (gaps : List (List (Round α))) :
    let s := run prior (opened boxes before channels board format rate frameSize)
    let ticks := schedule command now (channels.zip gaps)
    (∀ p ∈ applications ticks s, p = (command, Mailbox.isLate command now)) ∧
      ((applications ticks s).length ≤ 1 ↔ looks (channels.zip gaps) ≤ 1) ∧
      (command.mode = .samplesAndDone → looks (channels.zip gaps) ≤ 1 →
        total ticks s ≤ command.count) := by
  intro s ticks
  have hopened := inOrder_opened before board format rate frameSize hc
  have hchannels : s.receiver.channels = channels := channels_run prior _
  obtain ⟨happ, htotal⟩ := applications_schedule command now (channels.zip gaps) s
    (hopened.run prior) (by
      intro p hp
      rw [hchannels]
      exact (List.of_mem_zip hp).1)
  refine ⟨?_, ?_, fun hdone hlooks => ?_⟩
  · intro p hp
    rw [happ] at hp
    exact List.eq_of_mem_replicate hp
  · rw [happ, List.length_replicate]
  · calc total ticks s ≤ looks (channels.zip gaps) * command.count := htotal hdone
      _ ≤ 1 * command.count := Nat.mul_le_mul_right _ hlooks
      _ = command.count := Nat.one_mul _

/-- A command for five samples. -/
def five : StreamCommand ℚ := ⟨.samplesAndDone, 5, true, TimeSpec.zero⟩

/-- A round in which five samples are asked for. -/
def askFive : Round ℚ := ⟨Clock.start, 0, 5, false, []⟩

/-- With all rounds after the last step, five samples are delivered at most. -/
theorem carriedOut_once_askFive :
    (∀ c ∈ [0, 1], c < 2) ∧ looks ([0, 1].zip [[], [askFive, askFive]]) ≤ 1 ∧
      (applications (schedule five TimeSpec.zero ([0, 1].zip [[], [askFive, askFive]]))
        (run [] (opened 2 [] [0, 1] 0 .fc32 1 2000))).length ≤ 1 ∧
      total (schedule five TimeSpec.zero ([0, 1].zip [[], [askFive, askFive]]))
        (run [] (opened 2 [] [0, 1] 0 .fc32 1 2000)) ≤ 5 := by
  have hc : ∀ c ∈ [0, 1], c < 2 := by decide
  have hlooks : looks ([0, 1].zip [[], [askFive, askFive]]) ≤ 1 := by decide
  obtain ⟨-, honce, htotal⟩ := carriedOut_once_iff 2 [] [0, 1] 0 .fc32 1 2000 hc [] five
    TimeSpec.zero [[], [askFive, askFive]]
  exact ⟨hc, hlooks, honce.2 hlooks, htotal rfl hlooks⟩

/-- With a round after each of two steps, the same command delivers five samples twice. -/
theorem carriedOut_twice :
    let s : Stage ℚ := opened 2 [] [0, 1] 0 .fc32 1 2000
    let ticks := schedule five TimeSpec.zero ([0, 1].zip [[askFive], [askFive]])
    s.receiver.channels = [0, 1] ∧ (applications ticks s).length = 2 ∧
      total ticks s = five.count + five.count := by
  decide +kernel

end Stage

end SoftRadio
