import SoftRadio.Proofs.Device.SingleMailbox
import SoftRadio.Proofs.Stream.Overflow

/-!
# A radio on which no time overflows

Times come from callers, who may set a clock and issue commands and send packets with any whole
seconds that fit into a word.  They meet in the transfers, where the sum or the difference of two
of them need not fit.

`Bench` is a radio with a receive stream and a transmit stream, on which anything may happen, also
while a transfer sleeps.

* `Bench.succeeds_eq`: a transfer fails if and only if some of its times overflow.
* `Bench.Tame`, `Bench.tame_step`: as long as all that is handed in and all that the clocks read is
  small, so is everything that the streams hold.
* `Bench.overflow_account`: both, after any run from the opening of the radio on.
* `Bench.overflow_far_start`: a run that has to wait for a start which is too far away.
-/

namespace SoftRadio

variable {α : Type} [Scalar α]

/-! ## A radio while a transfer goes on -/

/-- What happens on a radio while a transfer sleeps, and the time elapsed when it wakes up. -/
structure Interlude (α : Type) where
  happenings : List (Happening α)
  elapsed : α

/-- A radio while a transfer goes on, and what is still to happen on it. -/
structure Shared (α : Type) where
  device : Device α
  elapsed : α
  interludes : List (Interlude α)

namespace Shared

/-- The world of a transfer on a stream of a motherboard.  A sleep lasts for one interlude. -/
def world (board : Nat) : World (Shared α) α where
  scene s := ⟨s.elapsed, s.device.clockOf board, s.device.office⟩
  sleep _ s :=
    match s.interludes with
    | [] => s
    | i :: rest => ⟨i.happenings.foldl Device.after s.device, i.elapsed, rest⟩

/-- The states that a transfer may come to. -/
def states : Device α → α → List (Interlude α) → List (Shared α)
  | d, elapsed, [] => [⟨d, elapsed, []⟩]
  | d, elapsed, i :: rest =>
    ⟨d, elapsed, i :: rest⟩ :: states (i.happenings.foldl Device.after d) i.elapsed rest

theorem mem_states_self (d : Device α) (elapsed : α) (interludes : List (Interlude α)) :
    ⟨d, elapsed, interludes⟩ ∈ states d elapsed interludes := by
  cases interludes <;> exact List.mem_cons_self

theorem sleep_mem_states {d : Device α} {elapsed : α} {interludes : List (Interlude α)}
    {s : Shared α} (h : s ∈ states d elapsed interludes) (board : Nat) (target : α) :
    (world board).sleep target s ∈ states d elapsed interludes := by
  induction interludes generalizing d elapsed with
  | nil =>
    obtain rfl := List.mem_singleton.1 h
    exact List.mem_singleton_self _
  | cons i rest ih =>
    rcases List.mem_cons.1 h with rfl | hs
    · exact List.mem_cons_of_mem _ (mem_states_self _ _ _)
    · exact List.mem_cons_of_mem _ (ih hs)

theorem mem_states_of_reaches {d : Device α} {elapsed : α} {interludes : List (Interlude α)}
    {board : Nat} {s : Shared α} (h : (world board).Reaches ⟨d, elapsed, interludes⟩ s) :
    s ∈ states d elapsed interludes := by
  induction h with
  | here => exact mem_states_self d elapsed interludes
  | sleep target _ ih => exact sleep_mem_states ih board target

end Shared

/-! ## Commands with small times -/

/-- The command that is to be issued, if there is one. -/
def Happening.command? : Happening α → Option (StreamCommand α)
  | .call _ (.issue command _) => some command
  | .issueOn _ command _ => some command
  | _ => none

/-- If a command is to be issued, its time is small. -/
def Happening.small (h : Happening α) : Bool := h.command?.all fun c => Word.small c.time.full

namespace PostOffice

omit [Scalar α] in
theorem tame_make (channels : Nat) : (make channels : PostOffice α).Tame := by
  intro channel command h
  unfold box make at h
  rw [List.getElem?_replicate] at h
  split at h <;> cases h

theorem Tame.issue {p : PostOffice α} (h : p.Tame) {command : StreamCommand α}
    (hc : Word.small command.time.full) (now : TimeSpec α) (channel : Nat) :
    (p.issue command now channel).Tame := by
  intro other command' hbox
  by_cases hlt : channel < p.boxes.length
  · rw [box_issue p command now hlt] at hbox
    split at hbox
    · cases hbox
      exact hc
    · exact h other command' hbox
  · have hsame : (p.issue command now channel).boxes = p.boxes :=
      List.set_eq_of_length_le (Nat.le_of_not_lt hlt)
    unfold box at hbox
    rw [hsame] at hbox
    exact h other command' hbox

theorem Tame.issueAll {p : PostOffice α} (h : p.Tame) {command : StreamCommand α}
    (hc : Word.small command.time.full) (now : TimeSpec α) (channels : List Nat) :
    (p.issueAll command now channels).Tame := by
  induction channels generalizing p with
  | nil => exact h
  | cons c channels ih => exact ih (h.issue hc now c)

end PostOffice

namespace Device

theorem command_of_postingOn {d : Device α} {command : StreamCommand α} {chan : Nat} {elapsed : α}
    {m : Posting α} (h : d.postingOn command chan elapsed = .ok m) : m.command = command := by
  obtain ⟨place, -, h⟩ := bind_eq_ok_iff.1 h
  obtain ⟨b, -, h⟩ := bind_eq_ok_iff.1 h
  obtain ⟨now, -, h⟩ := bind_eq_ok_iff.1 h
  cases pure_eq_ok_iff.1 h
  rfl

theorem command_of_postingOf {d : Device α} {r : Receiver α} {command : StreamCommand α}
    {elapsed : α} {m : Posting α} (h : d.postingOf r command elapsed = .ok m) :
    m.command = command := by
  obtain ⟨b, -, h⟩ := bind_eq_ok_iff.1 h
  obtain ⟨now, -, h⟩ := bind_eq_ok_iff.1 h
  cases pure_eq_ok_iff.1 h
  rfl

/-- What is issued is the command that was to be issued. -/
theorem command?_of_posting {d : Device α} {h : Happening α} {m : Posting α}
    (hm : d.posting h = some m) : h.command? = some m.command := by
  cases h with
  | round elapsed wanted onePacket buffers => cases hm
  | issueOn other command elapsed =>
    have hok : d.postingOf other command elapsed = .ok m := toOption_eq_some_iff.1 hm
    exact congrArg some (command_of_postingOf hok).symm
  | call looks call =>
    by_cases hissue : ∃ command chan, call = .issue command chan
    · obtain ⟨command, chan, rfl⟩ := hissue
      have hok : d.postingOn command chan (looks 0) = .ok m := toOption_eq_some_iff.1 hm
      exact congrArg some (command_of_postingOn hok).symm
    · have hnone := d.posting_of_ne looks fun command chan he => hissue ⟨command, chan, he⟩
      rw [hnone] at hm
      cases hm

theorem tame_after {d : Device α} (hd : d.office.Tame) {h : Happening α} (hh : h.small) :
    (d.after h).office.Tame := by
  rw [(after_office d h).office]
  cases hm : d.posting h with
  | none => exact hd
  | some m =>
    have hc := command?_of_posting hm
    unfold Happening.small at hh
    rw [hc] at hh
    exact hd.issueAll hh m.now m.channels

theorem tame_foldl_after {d : Device α} (hd : d.office.Tame) {happenings : List (Happening α)}
    (h : ∀ x ∈ happenings, x.small) : (happenings.foldl Device.after d).office.Tame := by
  induction happenings generalizing d with
  | nil => exact hd
  | cons x happenings ih =>
    exact ih (tame_after hd (h x List.mem_cons_self))
      fun y hy => h y (List.mem_cons_of_mem _ hy)

theorem tame_make {addr : Address} {g : Geometry α} {d : Device α} (h : make addr g = .ok d) :
    d.office.Tame := by
  obtain ⟨-, -, h⟩ := bind_eq_ok_iff.1 h
  obtain ⟨tree, -, h⟩ := bind_eq_ok_iff.1 h
  obtain ⟨boards, -, h⟩ := bind_eq_ok_iff.1 h
  cases pure_eq_ok_iff.1 h
  exact PostOffice.tame_make _

/-- A receive stream that was just opened holds no times. -/
theorem tame_openReceiver {d : Device α} {args : StreamArgs} {r : Receiver α}
    (h : d.openReceiver args = .ok r) : r.run.Tame := by
  obtain ⟨⟨format, wire⟩, -, h⟩ := bind_eq_ok_iff.1 h
  obtain ⟨⟨places, board, rate, frameSize⟩, -, h⟩ := bind_eq_ok_iff.1 h
  cases pure_eq_ok_iff.1 h
  exact ⟨fun start hs => (by cases hs), rfl⟩

/-- Nor does a transmit stream. -/
theorem small_openSender {d : Device α} {args : StreamArgs} {t : Sender α}
    (h : d.openSender args = .ok t) : Word.small t.burst.start.full := by
  obtain ⟨⟨format, wire⟩, -, h⟩ := bind_eq_ok_iff.1 h
  obtain ⟨⟨places, board, rate, frameSize⟩, -, h⟩ := bind_eq_ok_iff.1 h
  cases pure_eq_ok_iff.1 h
  rfl

end Device

/-! ## A radio with two streams -/

/-- A transfer on a receive stream, with all that happens on the radio from its start on until the
next one. -/
structure Reception (α : Type) where
  elapsed : α
  interludes : List (Interlude α)
  /-- How often there is time to look again after the first look. -/
  further : Nat
  buffers : List (List UInt8)
  wanted : Nat
  timeout : α
  onePacket : Bool

/-- What can be done with a radio and its streams, one of each direction.  A stream that is opened
takes the place of the one before. -/
inductive Activity (α : Type) where
  | happen (h : Happening α)
  | openReceiver (args : StreamArgs)
  | openSender (args : StreamArgs)
  | receive (q : Reception α)
  | send (sizes : List Nat) (count : Nat) (md : TxMetadata α) (elapsed : α)

structure Bench (α : Type) where
  device : Device α
  receiver : Receiver α
  sender : Sender α

namespace Bench

def attempt (b : Bench α) (q : Reception α) : Attempt (Shared α) α where
  world := Shared.world b.receiver.board
  state := ⟨b.device, q.elapsed, q.interludes⟩
  further := q.further
  buffers := q.buffers
  wanted := q.wanted
  timeout := q.timeout
  onePacket := q.onePacket

/-- The device time at which a packet is sent. -/
def sendTime (b : Bench α) (elapsed : α) : TimeSpec α :=
  (b.device.clockOf b.sender.board).reading elapsed

def step (b : Bench α) : Activity α → Bench α
  | .happen h => { b with device := b.device.after h }
  | .openReceiver args =>
    match b.device.openReceiver args with
    | .ok r => { b with receiver := r }
    | .error _ => b
  | .openSender args =>
    match b.device.openSender args with
    | .ok t => { b with sender := t }
    | .error _ => b
  | .receive q =>
    { b with
      device := (q.interludes.flatMap Interlude.happenings).foldl Device.after b.device
      receiver := ((b.attempt q).on b.receiver).receiver }
  | .send sizes count md elapsed =>
    { b with sender :=
      (b.sender.send sizes count md (b.device.clockOf b.sender.board) elapsed).2 }

def run (b : Bench α) (activities : List (Activity α)) : Bench α := activities.foldl step b

/-- The buffers of a transfer pass the check. -/
def accepts (b : Bench α) : Activity α → Bool
  | .receive q =>
    (checkBuffers q.buffers.length b.receiver.channelCount (q.buffers.map List.length) q.wanted
      b.receiver.itemSize).isOk
  | .send sizes count _ _ =>
    (checkBuffers sizes.length b.sender.channelCount sizes count b.sender.itemSize).isOk
  | _ => true

/-- A transfer returns something. -/
def succeeds (b : Bench α) : Activity α → Bool
  | .receive q => ((b.attempt q).on b.receiver).result.isOk
  | .send sizes count md elapsed =>
    (b.sender.send sizes count md (b.device.clockOf b.sender.board) elapsed).1.isOk
  | _ => true

/-- Some of the times of a transfer overflow. -/
def overflows (b : Bench α) : Activity α → Bool
  | .receive q => (b.attempt q).overflows b.receiver
  | .send _ count md elapsed => b.sender.overflows count md (b.sendTime elapsed)
  | _ => false

/-- All times that are handed in, all that the clocks read, and the durations of the bursts are
small, and the samples of a burst that is sent can be counted. -/
def small (b : Bench α) : Activity α → Bool
  | .happen h => h.small
  | .receive q =>
    (q.interludes.all fun i => i.happenings.all Happening.small) &&
      ((Shared.states b.device q.elapsed q.interludes).all fun s =>
        Word.small ((s.device.clockOf b.receiver.board).reading s.elapsed).full) &&
      (b.attempt q).brief b.receiver
  | .send _ count md elapsed =>
    let burst := b.sender.burstWith count md (b.sendTime elapsed)
    (!md.hasTime || Word.small md.time.full) && Word.small (b.sendTime elapsed).full &&
      decide (burst.sent < Word.limit) && Word.small (burst.lasted b.sender.rate)
  | _ => true

/-- So it is all along a run. -/
def smallAll : Bench α → List (Activity α) → Bool
  | _, [] => true
  | b, activity :: activities => b.small activity && smallAll (b.step activity) activities

/-- A bench that holds small times only. -/
structure Tame (b : Bench α) : Prop where
  office : b.device.office.Tame
  receiver : b.receiver.run.Tame
  sender : Word.small b.sender.burst.start.full

variable [Scalar.WordSized α]

/-- A transfer fails if and only if some of its times overflow. -/
theorem succeeds_eq {b : Bench α} {activity : Activity α} (h : b.accepts activity) :
    b.succeeds activity = !b.overflows activity := by
  cases activity with
  | happen | openReceiver | openSender => rfl
  | receive q =>
    obtain ⟨_, haccepted⟩ := isOk_iff.1 h
    exact Attempt.isOk_on (a := b.attempt q) haccepted
  | send sizes count md elapsed =>
    obtain ⟨_, haccepted⟩ := isOk_iff.1 h
    have hsend : b.sender.send sizes count md (b.device.clockOf b.sender.board) elapsed =
        b.sender.accept count md (b.sendTime elapsed) := by
      unfold Sender.send
      rw [haccepted, Clock.now_eq]
      rfl
    simp only [succeeds, overflows, hsend]
    exact Sender.isOk_accept _ _ _ _

omit [Scalar.WordSized α] in
/-- While a transfer goes on, whatever happens, the mailboxes and the clock keep to small times. -/
theorem tame_attempt {b : Bench α} (h : b.Tame) {q : Reception α} (hsmall : b.small (.receive q)) :
    (b.attempt q).Tame := by
  unfold small at hsmall
  simp only [Bool.and_eq_true, List.all_eq_true] at hsmall
  obtain ⟨⟨hhappenings, hreadings⟩, -⟩ := hsmall
  have hstates : ∀ (interludes : List (Interlude α)) (d : Device α) (elapsed : α),
      d.office.Tame → (∀ i ∈ interludes, ∀ x ∈ i.happenings, x.small) →
      ∀ s ∈ Shared.states d elapsed interludes, s.device.office.Tame := by
    intro interludes
    induction interludes with
    | nil =>
      intro d elapsed hd _ s hs
      obtain rfl := List.mem_singleton.1 hs
      exact hd
    | cons i rest ih =>
      intro d elapsed hd hall s hs
      rcases List.mem_cons.1 hs with rfl | hs
      · exact hd
      · exact ih _ _ (Device.tame_foldl_after hd (hall i List.mem_cons_self))
          (fun j hj => hall j (List.mem_cons_of_mem _ hj)) s hs
  intro s hreaches
  have hmem := Shared.mem_states_of_reaches hreaches
  exact ⟨hstates _ _ _ h.office hhappenings s hmem, hreadings s hmem⟩

theorem tame_step {b : Bench α} (h : b.Tame) {activity : Activity α}
    (hsmall : b.small activity) : (b.step activity).Tame := by
  cases activity with
  | happen x => exact ⟨Device.tame_after h.office hsmall, h.receiver, h.sender⟩
  | openReceiver args =>
    simp only [step]
    cases hopen : b.device.openReceiver args with
    | error f => exact h
    | ok r => exact ⟨h.office, Device.tame_openReceiver hopen, h.sender⟩
  | openSender args =>
    simp only [step]
    cases hopen : b.device.openSender args with
    | error f => exact h
    | ok t => exact ⟨h.office, h.receiver, Device.small_openSender hopen⟩
  | receive q =>
    have hattempt := tame_attempt h hsmall
    unfold small at hsmall
    simp only [Bool.and_eq_true, List.all_eq_true] at hsmall
    refine ⟨?_, Attempt.tame_on h.receiver hattempt, h.sender⟩
    refine Device.tame_foldl_after h.office fun x hx => ?_
    obtain ⟨i, hi, hx⟩ := List.mem_flatMap.1 hx
    exact hsmall.1.1 i hi x hx
  | send sizes count md elapsed =>
    refine ⟨h.office, h.receiver, ?_⟩
    unfold small at hsmall
    simp only [Bool.and_eq_true, Bool.or_eq_true, Bool.not_eq_true'] at hsmall
    obtain ⟨⟨⟨hmd, hnow⟩, -⟩, -⟩ := hsmall
    show Word.small
      (b.sender.send sizes count md (b.device.clockOf b.sender.board) elapsed).2.burst.start.full
    unfold Sender.send
    rw [Clock.now_eq]
    split
    · exact h.sender
    · exact (Sender.tame_accept h.sender count (fun ht => hmd.resolve_left (by simp [ht]))
        hnow).1

theorem overflows_of_tame {b : Bench α} (h : b.Tame) {activity : Activity α}
    (hsmall : b.small activity) : b.overflows activity = false := by
  cases activity with
  | happen | openReceiver | openSender => rfl
  | receive q =>
    have hattempt := tame_attempt h hsmall
    unfold small at hsmall
    simp only [Bool.and_eq_true] at hsmall
    exact Attempt.overflows_of_tame h.receiver hattempt hsmall.2
  | send sizes count md elapsed =>
    unfold small at hsmall
    simp only [Bool.and_eq_true, Bool.or_eq_true, Bool.not_eq_true', decide_eq_true_eq] at hsmall
    obtain ⟨⟨⟨hmd, hnow⟩, hcount⟩, hbrief⟩ := hsmall
    have hstart := (Sender.tame_accept h.sender count (fun ht => hmd.resolve_left (by simp [ht]))
      hnow).2
    exact Sender.overflows_of_tame hstart hcount hbrief

/-- A run through small times keeps to them. -/
theorem tame_run {b : Bench α} (h : b.Tame) {activities : List (Activity α)}
    {activity : Activity α} (hsmall : b.smallAll (activities ++ [activity])) :
    (b.run activities).Tame ∧ (b.run activities).small activity := by
  induction activities generalizing b with
  | nil =>
    rw [List.nil_append, smallAll, Bool.and_eq_true] at hsmall
    exact ⟨h, hsmall.1⟩
  | cons first activities ih =>
    rw [List.cons_append, smallAll, Bool.and_eq_true] at hsmall
    exact ih (tame_step h hsmall.1) hsmall.2

omit [Scalar.WordSized α] in
/-- A radio that was just opened, and two of its streams, hold small times. -/
theorem tame_opened {addr : Address} {g : Geometry α} {d : Device α}
    (hmake : Device.make addr g = .ok d) {rxArgs txArgs : StreamArgs} {r : Receiver α}
    (hr : d.openReceiver rxArgs = .ok r) {t : Sender α} (ht : d.openSender txArgs = .ok t) :
    (⟨d, r, t⟩ : Bench α).Tame :=
  ⟨Device.tame_make hmake, Device.tame_openReceiver hr, Device.small_openSender ht⟩

/-- When transfers overflow, after any run from the opening of a radio on: whenever the wait for
a start, the time of what is received, or the end of a burst that is sent does not fit, and
never otherwise.  As long as all times that are handed in, all that the clocks read and all
durations of bursts are less than two to the power of 62 seconds in size, this does not happen. -/
theorem overflow_account {addr : Address} {g : Geometry α} {d : Device α}
    (hmake : Device.make addr g = .ok d) {rxArgs txArgs : StreamArgs} {r : Receiver α}
    (hr : d.openReceiver rxArgs = .ok r) {t : Sender α} (ht : d.openSender txArgs = .ok t)
    (activities : List (Activity α)) (activity : Activity α) :
    let opened : Bench α := ⟨d, r, t⟩
    (opened.run activities).accepts activity →
      (opened.run activities).succeeds activity = !(opened.run activities).overflows activity ∧
        (opened.smallAll (activities ++ [activity]) →
          (opened.run activities).succeeds activity) := by
  intro opened haccepts
  have hiff := succeeds_eq haccepts
  refine ⟨hiff, fun hsmall => ?_⟩
  obtain ⟨htame, hlast⟩ := tame_run (tame_opened hmake hr ht) hsmall
  rw [hiff, overflows_of_tame htame hlast]
  rfl

/-! ## On the least radio -/

/-- The least radio there is. -/
def leastGeometry : Geometry ℚ := ⟨1, 1, 1, 1, 1⟩

/-- A stream of each direction on the least radio. -/
def least : Except Fault (Bench ℚ) := do
  let d ← Device.make Address.empty leastGeometry
  let r ← d.openReceiver ⟨"sc8", "sc8", Address.empty, [0]⟩
  let t ← d.openSender ⟨"sc8", "sc8", Address.empty, [0]⟩
  return ⟨d, r, t⟩

theorem exists_of_least {p : Bench ℚ → Bool} (h : (p <$> least).toOption = some true) :
    ∃ d r t, Device.make Address.empty leastGeometry = .ok d ∧
      d.openReceiver ⟨"sc8", "sc8", Address.empty, [0]⟩ = .ok r ∧
      d.openSender ⟨"sc8", "sc8", Address.empty, [0]⟩ = .ok t ∧ p ⟨d, r, t⟩ = true := by
  obtain ⟨b, hb, hp⟩ := map_eq_ok_iff.1 (toOption_eq_some_iff.1 h)
  obtain ⟨d, hmake, hb⟩ := bind_eq_ok_iff.1 hb
  obtain ⟨r, hr, hb⟩ := bind_eq_ok_iff.1 hb
  obtain ⟨t, ht, hb⟩ := bind_eq_ok_iff.1 hb
  cases pure_eq_ok_iff.1 hb
  exact ⟨d, r, t, hmake, hr, ht, hp⟩

/-- The clock is set to some time when the radio is opened. -/
def setClock (full : Int) : Activity ℚ :=
  .happen (.call (fun _ => 0) (.setTimeNow ⟨full, 0⟩ 0))

/-- Samples without end are asked for, from some time on. -/
def askFrom (full : Int) : Activity ℚ :=
  .happen (.call (fun _ => 0) (.issue ⟨.startContinuous, 0, false, ⟨full, 0⟩⟩ 0))

/-- A transfer of three samples, one second after the radio was opened. -/
def threeSamples : Activity ℚ := .receive ⟨1, [], 3, [List.replicate 6 0], 3, 0, false⟩

/-- The clock is set, samples are asked for, and some are received in time. -/
theorem overflow_account_threeSamples : ∃ d r t,
    Device.make Address.empty leastGeometry = .ok d ∧
      d.openReceiver ⟨"sc8", "sc8", Address.empty, [0]⟩ = .ok r ∧
      d.openSender ⟨"sc8", "sc8", Address.empty, [0]⟩ = .ok t ∧
      ((⟨d, r, t⟩ : Bench ℚ).run [setClock 5, askFrom 6]).succeeds threeSamples := by
  have hrun : ((fun b : Bench ℚ => (b.run [setClock 5, askFrom 6]).accepts threeSamples &&
      b.smallAll ([setClock 5, askFrom 6] ++ [threeSamples])) <$> least).toOption = some true := by
    decide +kernel
  obtain ⟨d, r, t, hmake, hr, ht, h⟩ := exists_of_least hrun
  rw [Bool.and_eq_true] at h
  exact ⟨d, r, t, hmake, hr, ht,
    (overflow_account hmake hr ht [setClock 5, askFrom 6] threeSamples h.1).2 h.2⟩

/-- The clock is set to two seconds before zero, and samples are asked for from the last second that
there is: the wait for them does not fit. -/
theorem overflow_far_start : ∃ d r t,
    Device.make Address.empty leastGeometry = .ok d ∧
      d.openReceiver ⟨"sc8", "sc8", Address.empty, [0]⟩ = .ok r ∧
      d.openSender ⟨"sc8", "sc8", Address.empty, [0]⟩ = .ok t ∧
      let b := (⟨d, r, t⟩ : Bench ℚ).run [setClock (-2), askFrom Word.greatest]
      b.accepts threeSamples = true ∧ b.succeeds threeSamples = false := by
  have hrun : ((fun b : Bench ℚ =>
      let b := b.run [setClock (-2), askFrom Word.greatest]
      b.accepts threeSamples && !b.succeeds threeSamples) <$> least).toOption = some true := by
    decide +kernel
  obtain ⟨d, r, t, hmake, hr, ht, h⟩ := exists_of_least hrun
  rw [Bool.and_eq_true, Bool.not_eq_true'] at h
  exact ⟨d, r, t, hmake, hr, ht, h⟩

end Bench

end SoftRadio
