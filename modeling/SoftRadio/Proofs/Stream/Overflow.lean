import SoftRadio.Proofs.Stream.Looks
import SoftRadio.Stream.Sender

/-!
# Where whole seconds overflow

A transfer computes with whole seconds in three places: the time that is left until a start, the
time of what is received, and the time at which a burst has been sent.  Nothing else in it can
fail, once its buffers are accepted.

* `Attempt.isOk_on`: a transfer on a receive stream fails if and only if its last look has to wait
  for too long, or finds samples whose time does not fit (`Attempt.overflows`).
* `Sender.isOk_accept`: a packet fails if and only if the samples of its burst do not fit, or it
  ends a burst at a time that does not fit (`Sender.overflows`).
* `Run.Tame`, `Attempt.tame_on`: as long as the times of commands and the readings of the clock are
  small, so are the times that a receive stream holds, and no wait is too long.
* `Sender.tame_accept`: the same for the start of a burst that is sent.
-/

namespace SoftRadio

variable {σ α : Type}

section

variable [Scalar α]

/-! ## Receiving -/

namespace Receiver

/-- The whole seconds that the samples delivered so far have carried over. -/
def lasted (r : Receiver α) : Int :=
  TimeSpec.carry (r.run.streamStart.frac + Scalar.ofInt r.run.produced / r.rate)

/-- The time of the next sample does not fit. -/
def timeOverflows (r : Receiver α) : Bool := !Word.fits (r.run.streamStart.full + r.lasted)

theorem isOk_deliver (r : Receiver α) (wanted : Nat) (onePacket : Bool)
    (buffers : List (List UInt8)) :
    (r.deliver wanted onePacket buffers).result.isOk = !r.timeOverflows := by
  have htime := r.run.streamStart.addSecs_eq (Scalar.ofInt r.run.produced / r.rate)
  unfold deliver timeOverflows lasted
  rw [htime]
  cases Word.fits (r.run.streamStart.full +
    TimeSpec.carry (r.run.streamStart.frac + Scalar.ofInt r.run.produced / r.rate)) <;> rfl

/-- Looking at the mailboxes never fails. -/
theorem poll_fst [Scalar.WordSized α] (run : Run α) (channels : List Nat) (scene : Scene α) :
    (poll run channels scene).1 = .ok () := by
  unfold poll
  rcases taken run channels scene.office with _ | ⟨command, _ | _⟩
  · rfl
  · show (begin _ command scene.clock scene.elapsed).1 = .ok ()
    unfold begin
    rw [Clock.now_eq]
    by_cases hstop : command.mode = .stopContinuous
    · simp [hstop]
    · cases command.immediate <;> simp [hstop]
  · rfl

end Receiver

namespace Look

variable (world : World σ α) (l : Look σ α)

/-- The run after the mailboxes have been looked at. -/
def polled : Run α := (Receiver.poll l.receiver.run l.receiver.channels (world.scene l.state)).2

/-- The look has to wait for a start that is too far away to tell how far. -/
def waitOverflows : Bool :=
  !(l.polled world).late && (l.polled world).mode != .idle &&
    (l.polled world).startAt.any fun start => !Word.fits (start.full - (l.reading world).full)

/-- The look finds samples to deliver. -/
def isReady : Bool :=
  match (l.passed world).1 with
  | .ok .ready => true
  | _ => false

/-- Nothing can fail in a look but the wait. -/
theorem isOk_passed [Scalar.WordSized α] :
    (l.passed world).1.isOk = !l.waitOverflows world := by
  have hpoll : Receiver.poll l.receiver.run l.receiver.channels (world.scene l.state) =
      (.ok (), l.polled world) :=
    Prod.ext (Receiver.poll_fst ..) rfl
  unfold passed waitOverflows Receiver.pass
  rw [hpoll]
  generalize l.polled world = run
  cases hlate : run.late with
  | true => simp [Receiver.proceed, hlate, Except.isOk, Except.toBool]
  | false =>
    by_cases hmode : run.mode = .idle
    · simp [Receiver.proceed, hlate, hmode, Except.isOk, Except.toBool]
    · cases hstart : run.startAt with
      | none => simp [Receiver.proceed, hlate, hmode, hstart, Except.isOk, Except.toBool]
      | some start =>
        have hwait : ((world.scene l.state).clock.now (world.scene l.state).elapsed >>=
            fun now => now.secsUntil start) = (l.reading world).secsUntil start := by
          rw [Clock.now_eq]
          rfl
        rw [(l.reading world).secsUntil_eq start] at hwait
        cases hfits : Word.fits (start.full - (l.reading world).full) with
        | false =>
          rw [hfits] at hwait
          simp [Receiver.proceed, hlate, hmode, hstart, hwait, hfits, crash, Except.isOk,
            Except.toBool]
        | true =>
          rw [hfits] at hwait
          simp only [Receiver.proceed, hlate, hmode, hstart, hwait, if_true, if_false]
          by_cases hfar : Scalar.lt (Scalar.ofInt 0) (Scalar.ofInt (start.full -
              (l.reading world).full) + (start.frac - (l.reading world).frac)) <;>
            simp [hfar, hfits, Except.isOk, Except.toBool]

end Look

namespace Attempt

open Receiver

/-- The transfer overflows, at its last look: in the wait for the start, or in the time of the
samples. -/
def overflows (a : Attempt σ α) (r : Receiver α) : Bool :=
  (a.looks r).getLast?.any fun l =>
    l.waitOverflows a.world || l.isReady a.world && (l.after a.world).timeOverflows

/-- Nothing else can fail in a transfer whose buffers are accepted. -/
theorem isOk_on [Scalar.WordSized α] {a : Attempt σ α} {r : Receiver α} (h : a.Accepted r) :
    (a.on r).result.isOk = !a.overflows r := by
  obtain ⟨before, last, hlooks, -, hon⟩ := on_eq_conclude h
  have hlast : (a.looks r).getLast? = some last := by
    rw [hlooks, List.getLast?_append]
    rfl
  have hwait : last.waitOverflows a.world = !(last.passed a.world).1.isOk := by
    rw [last.isOk_passed a.world, Bool.not_not]
  unfold overflows Look.isReady
  rw [hlast, hon, Option.any_some, hwait]
  unfold Look.verdict
  cases hp : (last.passed a.world).1 with
  | error f => rfl
  | ok look =>
    cases look with
    | ready => exact isOk_deliver (last.after a.world) a.wanted a.onePacket a.buffers
    | late | idle | early => rfl

end Attempt

/-! ## Sending -/

/-- The whole seconds that the samples of a burst have carried over. -/
def Burst.lasted (b : Burst α) (rate : α) : Int :=
  TimeSpec.carry (b.start.frac + Scalar.ofInt b.sent / rate)

namespace Sender

/-- The burst with another packet. -/
def burstWith (s : Sender α) (count : Nat) (md : TxMetadata α) (now : TimeSpec α) : Burst α :=
  { s.burstFor md now with sent := (s.burstFor md now).sent + count }

/-- A packet that is not late overflows: in the number of samples, or in the time of its end. -/
def overflows (s : Sender α) (count : Nat) (md : TxMetadata α) (now : TimeSpec α) : Bool :=
  let burst := s.burstWith count md now
  !(md.hasTime && md.time.isBefore now) &&
    (Word.limit ≤ burst.sent ||
      md.endOfBurst && !Word.fits (burst.start.full + burst.lasted s.rate))

/-- Nothing else can fail in a packet whose buffers are accepted. -/
theorem isOk_accept (s : Sender α) (count : Nat) (md : TxMetadata α) (now : TimeSpec α) :
    (s.accept count md now).1.isOk = !s.overflows count md now := by
  unfold accept overflows burstWith Burst.lasted
  dsimp only
  cases md.hasTime && md.time.isBefore now with
  | true => rfl
  | false =>
    generalize s.burstFor md now = burst
    by_cases hmany : Word.limit ≤ burst.sent + count
    · simp [hmany, crash, Except.isOk, Except.toBool]
    · cases md.endOfBurst with
      | false => simp [hmany, Except.isOk, Except.toBool]
      | true =>
        rw [TimeSpec.addSecs_eq]
        cases hfits : Word.fits (burst.start.full +
            TimeSpec.carry
              (burst.start.frac + Scalar.ofInt (burst.sent + count : Nat) / s.rate)) <;>
          simp [hmany, crash, Except.isOk, Except.toBool]

end Sender

/-! ## Small times -/

/-- A run that holds small times only. -/
structure Run.Tame (run : Run α) : Prop where
  startAt : ∀ start, run.startAt = some start → Word.small start.full
  streamStart : Word.small run.streamStart.full

/-- The times of all commands in the mailboxes are small. -/
def PostOffice.Tame (p : PostOffice α) : Prop :=
  ∀ channel command, (p.box channel).command = some command → Word.small command.time.full

namespace Receiver

omit [Scalar α] in
/-- What is newest was in one of the mailboxes. -/
theorem mem_of_newestUnseen {boxes : List (Mailbox α)} {seen : List Nat}
    {best : Option (Mailbox α)} {box : Mailbox α} (h : newestUnseen boxes seen best = some box) :
    box ∈ boxes ∨ best = some box := by
  induction boxes generalizing seen best with
  | nil => exact Or.inr (by simpa [newestUnseen] using h)
  | cons first boxes ih =>
    cases seen with
    | nil => exact Or.inr (by simpa [newestUnseen] using h)
    | cons n seen =>
      unfold newestUnseen at h
      split at h
      · exact (ih h).imp_left (List.mem_cons_of_mem _)
      · cases best with
        | none =>
          rcases ih h with hmem | heq
          · exact Or.inl (List.mem_cons_of_mem _ hmem)
          · cases heq
            exact Or.inl List.mem_cons_self
        | some b =>
          rcases ih h with hmem | heq
          · exact Or.inl (List.mem_cons_of_mem _ hmem)
          · cases heq
            split
            · exact Or.inl List.mem_cons_self
            · exact Or.inr rfl

omit [Scalar α] in
theorem small_of_taken {run : Run α} {channels : List Nat} {office : PostOffice α}
    (h : office.Tame) {command : StreamCommand α} {late : Bool}
    (htaken : taken run channels office = some (command, late)) :
    Word.small command.time.full := by
  obtain ⟨box, hbox, hmail⟩ := Option.bind_eq_some_iff.1 htaken
  obtain ⟨command', hcommand, heq⟩ := Option.map_eq_some_iff.1 hmail
  cases heq
  rcases mem_of_newestUnseen hbox with hmem | hnone
  · obtain ⟨c, -, rfl⟩ := List.mem_map.1 hmem
    exact h c command hcommand
  · cases hnone

theorem tame_begin [Scalar.WordSized α] {run : Run α} (h : run.Tame) {command : StreamCommand α}
    (hcommand : Word.small command.time.full) {clock : Clock α} {elapsed : α}
    (hreading : Word.small (clock.reading elapsed).full) :
    (begin run command clock elapsed).2.Tame := by
  unfold begin
  by_cases hstop : command.mode = .stopContinuous
  · rw [if_pos hstop]
    exact ⟨h.startAt, h.streamStart⟩
  · rw [if_neg hstop, Clock.now_eq]
    cases command.immediate with
    | true => exact ⟨fun start hs => (by cases hs), hreading⟩
    | false =>
      refine ⟨fun start hs => ?_, hcommand⟩
      cases hs
      exact hcommand

theorem tame_poll [Scalar.WordSized α] {run : Run α} (h : run.Tame) (channels : List Nat)
    {scene : Scene α} (hoffice : scene.office.Tame)
    (hreading : Word.small (scene.clock.reading scene.elapsed).full) :
    (poll run channels scene).2.Tame := by
  have hseen : ({ run with seen := scene.office.numbers channels } : Run α).Tame :=
    ⟨h.startAt, h.streamStart⟩
  unfold poll
  cases htaken : taken run channels scene.office with
  | none => exact hseen
  | some mail =>
    obtain ⟨command, late⟩ := mail
    cases late with
    | true => exact ⟨h.startAt, h.streamStart⟩
    | false => exact tame_begin hseen (small_of_taken hoffice htaken) hreading

/-- A look forgets a start at most. -/
theorem startAt_proceed (result : Except Fault Unit) (run : Run α) (clock : Clock α)
    (elapsed : α) : (proceed clock elapsed (result, run)).2.startAt = run.startAt ∨
      (proceed clock elapsed (result, run)).2.startAt = none := by
  cases result with
  | error f => exact Or.inl rfl
  | ok =>
    unfold proceed
    dsimp only
    split
    · exact Or.inl rfl
    · split
      · exact Or.inl rfl
      · split
        · exact Or.inl rfl
        · split
          · exact Or.inl rfl
          · split
            · exact Or.inl rfl
            · exact Or.inr rfl

theorem tame_pass [Scalar.WordSized α] {run : Run α} (h : run.Tame) (channels : List Nat)
    {scene : Scene α} (hoffice : scene.office.Tame)
    (hreading : Word.small (scene.clock.reading scene.elapsed).full) :
    (pass run channels scene).2.Tame := by
  have hpoll := tame_poll h channels hoffice hreading
  unfold pass
  generalize poll run channels scene = polled at hpoll ⊢
  obtain ⟨result, run'⟩ := polled
  constructor
  case startAt =>
    intro start hs
    rcases startAt_proceed result run' scene.clock scene.elapsed with hsame | hnone
    · exact hpoll.startAt start (hsame.symm.trans hs)
    · rw [hnone] at hs
      cases hs
  case streamStart =>
    rcases proceed_cases result run' scene.clock scene.elapsed with
      ⟨f, -, hp⟩ | ⟨-, -, hp⟩ | ⟨-, -, -, hp⟩ | ⟨-, -, -, look, start, -, hp⟩ <;>
    · rw [hp]
      exact hpoll.streamStart

end Receiver

namespace Attempt

open Receiver

/-- Wherever its world gets to, the mailboxes hold small times and the clock of the stream reads
one. -/
def Tame (a : Attempt σ α) : Prop :=
  ∀ s, a.world.Reaches a.state s → (a.world.scene s).office.Tame ∧
    Word.small ((a.world.scene s).clock.reading (a.world.scene s).elapsed).full

/-- When the transfer delivers, the samples before have not carried over too many seconds. -/
def brief (a : Attempt σ α) (r : Receiver α) : Bool :=
  (a.looks r).getLast?.all fun l => Word.small (l.after a.world).lasted

variable [Scalar.WordSized α] {a : Attempt σ α} {r : Receiver α}

theorem tame_looks (h : r.run.Tame) (ha : a.Tame) :
    ∀ l ∈ a.looks r, a.world.Reaches a.state l.state ∧ l.receiver.run.Tame :=
  forall_looks (P := fun r' => r'.run.Tame)
    (fun s r' hs hr' => tame_pass hr' r'.channels (ha s hs).1 (ha s hs).2) h

/-- As long as all times are small, no transfer overflows. -/
theorem overflows_of_tame (h : r.run.Tame) (ha : a.Tame) (hbrief : a.brief r) :
    a.overflows r = false := by
  unfold overflows
  unfold brief at hbrief
  cases hlast : (a.looks r).getLast? with
  | none => rfl
  | some l =>
    rw [hlast] at hbrief
    obtain ⟨hreaches, hrun⟩ := tame_looks h ha l (List.mem_of_getLast? hlast)
    obtain ⟨hoffice, hreading⟩ := ha l.state hreaches
    have hpolled : (l.polled a.world).Tame := tame_poll hrun _ hoffice hreading
    have hafter : (l.after a.world).run.Tame := tame_pass hrun _ hoffice hreading
    have hwait : l.waitOverflows a.world = false := by
      unfold Look.waitOverflows
      cases hs : (l.polled a.world).startAt with
      | none => simp
      | some start =>
        have hfits := Word.fits_sub_of_small (hpolled.startAt start hs) hreading
        have hfits' : Word.fits (start.full - (l.reading a.world).full) = true := hfits
        simp [hfits']
    have htime : (l.after a.world).timeOverflows = false := by
      unfold timeOverflows
      rw [Word.fits_add_of_small hafter.streamStart hbrief]
      rfl
    simp [hwait, htime]

/-- A transfer leaves small times in its stream. -/
theorem tame_on (h : r.run.Tame) (ha : a.Tame) : (a.on r).receiver.run.Tame := by
  rcases a.refused_or_accepted r with ⟨f, -, hon⟩ | haccepted
  · rw [hon]
    exact h
  · obtain ⟨before, last, hlooks, -, hon⟩ := on_eq_conclude haccepted
    obtain ⟨hreaches, hrun⟩ := tame_looks h ha last (by simp [hlooks])
    have hafter : (last.after a.world).run.Tame :=
      tame_pass hrun _ (ha last.state hreaches).1 (ha last.state hreaches).2
    rw [hon]
    unfold conclude
    split
    · exact hafter
    · exact hafter
    · exact hafter
    · rcases deliver_receiver (last.after a.world) a.wanted a.onePacket a.buffers with
        ⟨f, -, hr⟩ | ⟨md, -, hr⟩
      · rw [hr]
        exact hafter
      · rw [hr]
        show (advance _ _).1.Tame
        rw [advance_eq]
        exact ⟨hafter.startAt, hafter.streamStart⟩

end Attempt

namespace Sender

/-- A packet with a small time, sent at a small time, leaves a small start of the burst. -/
theorem tame_accept {s : Sender α} (h : Word.small s.burst.start.full) (count : Nat)
    {md : TxMetadata α} (hmd : md.hasTime → Word.small md.time.full) {now : TimeSpec α}
    (hnow : Word.small now.full) : Word.small (s.accept count md now).2.burst.start.full ∧
      Word.small (s.burstFor md now).start.full := by
  have hnone : Word.small (Burst.none : Burst α).start.full := rfl
  have hburst : Word.small (s.burstFor md now).start.full := by
    unfold burstFor
    split
    · show Word.small (if md.hasTime then md.time else now).full
      split
      · exact hmd ‹_›
      · exact hnow
    · exact h
  refine ⟨?_, hburst⟩
  unfold accept
  split
  · exact hnone
  · dsimp only
    split
    · exact hburst
    · split
      · split
        · exact hburst
        · exact hnone
      · exact hburst

/-- As long as all times are small and the samples of a burst can be counted, no packet
overflows. -/
theorem overflows_of_tame {s : Sender α} {count : Nat} {md : TxMetadata α} {now : TimeSpec α}
    (hstart : Word.small (s.burstFor md now).start.full)
    (hcount : (s.burstWith count md now).sent < Word.limit)
    (hbrief : Word.small ((s.burstWith count md now).lasted s.rate)) :
    s.overflows count md now = false := by
  have hfits := Word.fits_add_of_small hstart hbrief
  have hfits' : Word.fits ((s.burstWith count md now).start.full +
      (s.burstWith count md now).lasted s.rate) = true := hfits
  unfold overflows
  simp [hfits', hcount]

end Sender

end

end SoftRadio
