import SoftRadio.Proofs.Stream.Attempt

/-!
# What a burst delivers

A command to start at once asks for a number of samples, or for samples without end.  Transfers
follow it, of any sizes, each of at most one packet or not, and no further command.

* `FiniteBurst`: the results of the transfers that follow a command for a number of samples.
  Each delivers what is asked as far as there is enough left; the first one at which the number
  is reached ends the burst, and the others time out.
* `EndlessBurst`: the results of those that follow a command for samples without end.
* `Attempt.finiteBurst_of_settled`, `Attempt.endlessBurst_of_settled`: the results, from any
  point of a burst on, by induction on the transfers.
* `Stage.Reachable.transfers_after_start`: the results after the command, whatever happened
  before it.
-/

namespace SoftRadio

variable {σ α : Type}

/-- A transfer has returned some samples with some error, and ends a burst or does not. -/
def Received.Reports (x : Received α) (count : Nat) (error : RxError) (ends : Bool) : Prop :=
  ∃ md, x.result = .ok (md, count) ∧ md.error = error ∧ md.endOfBurst = ends

/-- In some mode, there is more to deliver than some samples. -/
def RunMode.Exceeds : RunMode → Nat → Prop
  | .idle, _ => False
  | .continuous, _ => True
  | .finite n _, m => m < n

/-- The results `xs` of transfers from a burst of which `n` samples are left, and whose end is
told or not. -/
structure FiniteBurst (n : Nat) (told : Bool) (frameSize : Nat) (attempts : List (Attempt σ α))
    (xs : List (Received α)) : Prop where
  /-- Until the burst has ended, all is delivered that is asked and left, and the end is told with
  the sample that is the last. -/
  active : ∀ (i : Nat) (a : Attempt σ α) (x : Received α), attempts[i]? = some a →
    xs[i]? = some x → (∀ j < i, Received.total (xs.take (j + 1)) ≠ n) →
    x.Reports (min (a.limit frameSize) (n - Received.total (xs.take i))) .none
      (told && Received.total (xs.take (i + 1)) == n)
  /-- After it has ended, there is nothing. -/
  ended : ∀ (i : Nat) (x : Received α), xs[i]? = some x →
    (∃ j < i, Received.total (xs.take (j + 1)) = n) → x.Reports 0 .timeout false
  /-- In all, the samples are as many as there were left, if the transfers ask for so many. -/
  total : Received.total xs = min n (Attempt.asked frameSize attempts)

/-- The results `xs` of transfers from a burst without end. -/
def EndlessBurst (frameSize : Nat) (attempts : List (Attempt σ α)) (xs : List (Received α)) :
    Prop :=
  ∀ (i : Nat) (a : Attempt σ α) (x : Received α), attempts[i]? = some a → xs[i]? = some x →
    x.Reports (a.limit frameSize) .none false

theorem Received.Reports.count_eq {x : Received α} {count : Nat} {error : RxError} {ends : Bool}
    (h : x.Reports count error ends) : x.count = count := by
  obtain ⟨md, hx, -, -⟩ := h
  simp [Received.count, hx]

theorem Received.total_cons (x : Received α) (xs : List (Received α)) :
    total (x :: xs) = x.count + total xs := rfl

theorem Attempt.asked_cons (frameSize : Nat) (a : Attempt σ α) (attempts : List (Attempt σ α)) :
    asked frameSize (a :: attempts) = a.limit frameSize + asked frameSize attempts := rfl

/-! ## Bursts, one transfer at a time -/

namespace FiniteBurst

variable {n frameSize : Nat} {told : Bool} {a : Attempt σ α} {attempts : List (Attempt σ α)}
  {x : Received α} {xs : List (Received α)}

theorem nil : FiniteBurst n told frameSize ([] : List (Attempt σ α)) [] where
  active := by simp
  ended := by simp
  total := by simp [Received.total, Attempt.asked]

/-- The transfer that delivers the last sample. -/
theorem last (hx : x.Reports n .none told) (ha : n ≤ a.limit frameSize)
    (hxs : ∀ y ∈ xs, y.Reports 0 .timeout false) :
    FiniteBurst n told frameSize (a :: attempts) (x :: xs) := by
  have hone : Received.total ((x :: xs).take 1) = n := hx.count_eq
  constructor
  case active =>
    intro i b y hb hy hactive
    cases i with
    | zero =>
      obtain rfl : a = b := by simpa using hb
      obtain rfl : x = y := by simpa using hy
      have hmin : min (a.limit frameSize) (n - Received.total ((x :: xs).take 0)) = n := by
        simpa [Received.total] using ha
      rw [hone, hmin]
      simpa using hx
    | succ i => exact absurd hone (hactive 0 i.succ_pos)
  case ended =>
    intro i y hy hended
    cases i with
    | zero =>
      obtain ⟨j, hj, -⟩ := hended
      exact absurd hj j.not_lt_zero
    | succ i => exact hxs y (List.mem_of_getElem? hy)
  case total =>
    have hnone : Received.total xs = 0 := by
      refine List.sum_eq_zero fun m hm => ?_
      obtain ⟨y, hy, rfl⟩ := List.mem_map.1 hm
      exact (hxs y hy).count_eq
    rw [Received.total_cons, Attempt.asked_cons, hx.count_eq, hnone]
    omega

/-- A transfer after which something is left. -/
theorem cons (hx : x.Reports (a.limit frameSize) .none false) (ha : a.limit frameSize < n)
    (h : FiniteBurst (n - a.limit frameSize) told frameSize attempts xs) :
    FiniteBurst n told frameSize (a :: attempts) (x :: xs) := by
  have htake : ∀ i, Received.total ((x :: xs).take (i + 1)) =
      a.limit frameSize + Received.total (xs.take i) := by
    intro i
    rw [List.take_succ_cons, Received.total_cons, hx.count_eq]
  have hone : Received.total ((x :: xs).take (0 + 1)) = a.limit frameSize := htake 0
  constructor
  case active =>
    intro i b y hb hy hactive
    cases i with
    | zero =>
      obtain rfl : a = b := by simpa using hb
      obtain rfl : x = y := by simpa using hy
      have hmin : min (a.limit frameSize) (n - Received.total ((x :: xs).take 0)) =
          a.limit frameSize := by
        simpa [Received.total] using ha.le
      have hend : (a.limit frameSize == n) = false := by simpa using ha.ne
      rw [hone, hmin, hend, Bool.and_false]
      exact hx
    | succ i =>
      have hrest := h.active i b y hb hy fun j hj he =>
        hactive (j + 1) (Nat.succ_lt_succ hj) (by rw [htake, he]; omega)
      have hend : (Received.total (xs.take (i + 1)) == n - a.limit frameSize) =
          (a.limit frameSize + Received.total (xs.take (i + 1)) == n) := by
        rw [Bool.eq_iff_iff, beq_iff_eq, beq_iff_eq]
        omega
      rw [htake, htake, ← hend, Nat.sub_add_eq]
      exact hrest
  case ended =>
    intro i y hy hended
    obtain ⟨j, hj, he⟩ := hended
    cases i with
    | zero => exact absurd hj j.not_lt_zero
    | succ i =>
      cases j with
      | zero => exact absurd (hone.symm.trans he) ha.ne
      | succ j =>
        refine h.ended i y hy ⟨j, Nat.lt_of_succ_lt_succ hj, ?_⟩
        rw [htake] at he
        omega
  case total =>
    rw [Received.total_cons, Attempt.asked_cons, hx.count_eq, h.total]
    omega

end FiniteBurst

/-! ## One delivery -/

namespace Receiver

theorem portion_of_finite {r : Receiver α} {n : Nat} {told : Bool}
    (h : r.run.mode = .finite n told) (a : Attempt σ α) :
    r.portion a.wanted a.onePacket = min (a.limit r.frameSize) n := by
  unfold portion Attempt.limit
  simp only [h]
  split <;> omega

theorem portion_of_continuous {r : Receiver α} (h : r.run.mode = .continuous) (a : Attempt σ α) :
    r.portion a.wanted a.onePacket = a.limit r.frameSize := by
  unfold portion Attempt.limit
  simp only [h]

/-- The last sample of a burst brings the stream to rest, and no other does. -/
theorem advance_of_finite {run : Run α} {n : Nat} {told : Bool} (h : run.mode = .finite n told)
    {count : Nat} (hcount : count ≤ n) :
    (advance run count).1.mode = (if count = n then .idle else .finite (n - count) told) ∧
      (advance run count).2 = (told && count == n) := by
  unfold advance
  simp only [h]
  by_cases hn : count = n
  · simp [hn]
  · have hleft : n - count ≠ 0 := by omega
    simp [hn, hleft]

end Receiver

namespace Attempt

open Receiver

variable [Scalar α] {r : Receiver α} {office : PostOffice α} {attempts : List (Attempt σ α)}

/-- A delivery whose time can be computed. -/
theorem answer_of_addSecs (h : r.run.mode ≠ .idle) {time : TimeSpec α}
    (htime : r.run.streamStart.addSecs (Scalar.ofInt r.run.produced / r.rate) = .ok time)
    (a : Attempt σ α) :
    (a.answer r).Reports (r.portion a.wanted a.onePacket) .none
        (advance r.run (r.portion a.wanted a.onePacket)).2 ∧
      (a.answer r).receiver =
        { r with run := (advance r.run (r.portion a.wanted a.onePacket)).1 } := by
  rw [answer_of_ne_idle h]
  unfold deliver
  rw [htime]
  exact ⟨⟨_, rfl, rfl, rfl⟩, rfl⟩

/-! ## All that follow -/

/-- Transfers on a stream with nothing new in its mailboxes, one of them taken out. -/
theorem transfers_cons (h : r.Settled office) {a : Attempt σ α} (haccepted : a.Accepted r)
    (hquiet : a.Quiet r.channels office) :
    transfers (a :: attempts) r = a.answer r :: transfers attempts (a.answer r).receiver := by
  show a.on r :: transfers attempts (a.on r).receiver = _
  rw [on_of_settled h haccepted hquiet]

/-- A stream whose transfers are accepted, and undisturbed by further commands. -/
structure Undisturbed (attempts : List (Attempt σ α)) (r : Receiver α) (office : PostOffice α) :
    Prop where
  accepted : ∀ a ∈ attempts, a.Accepted r
  quiet : ∀ a ∈ attempts, a.Quiet r.channels office

omit [Scalar α] in
theorem Undisturbed.congr {r' : Receiver α} (h : Undisturbed attempts r office)
    (hr : r' = { r with run := r'.run }) : Undisturbed attempts r' office := by
  constructor
  · intro a ha
    rw [hr]
    exact h.accepted a ha
  · rw [hr]
    exact h.quiet

omit [Scalar α] in
theorem Undisturbed.rest {a : Attempt σ α} (h : Undisturbed (a :: attempts) r office)
    {r' : Receiver α} (hr : r' = { r with run := r'.run }) : Undisturbed attempts r' office :=
  Undisturbed.congr ⟨fun b hb => h.accepted b (List.mem_cons_of_mem _ hb),
    fun b hb => h.quiet b (List.mem_cons_of_mem _ hb)⟩ hr

/-- A stream at rest stays at rest. -/
theorem transfers_of_idle (h : r.Settled office) (hidle : r.run.mode = .idle)
    (hundisturbed : Undisturbed attempts r office) :
    ∀ x ∈ transfers attempts r, x.Reports 0 .timeout false := by
  induction attempts with
  | nil => simp [transfers]
  | cons a attempts ih =>
    rw [transfers_cons h (hundisturbed.accepted a List.mem_cons_self)
      (hundisturbed.quiet a List.mem_cons_self), answer_of_idle hidle]
    intro x hx
    rcases List.mem_cons.1 hx with rfl | hx
    · exact ⟨_, rfl, rfl, rfl⟩
    · exact ih (hundisturbed.rest rfl) x hx

/-- There is a time for every transfer that delivers something, and for the first one: for those
that begin some samples after `start`, while the mode still owes samples. -/
def Timed (attempts : List (Attempt σ α)) (frameSize : Nat) (rate : α) (start : TimeSpec α)
    (produced : Nat) (mode : RunMode) : Prop :=
  ∀ i < attempts.length, i = 0 ∨ mode.Exceeds (asked frameSize (attempts.take i)) →
    ∃ time, start.addSecs (Scalar.ofInt ↑(produced + asked frameSize (attempts.take i)) / rate) =
      .ok time

theorem Timed.first {a : Attempt σ α} {frameSize : Nat} {rate : α} {start : TimeSpec α}
    {produced : Nat} {mode : RunMode}
    (h : Timed (a :: attempts) frameSize rate start produced mode) :
    ∃ time, start.addSecs (Scalar.ofInt produced / rate) = .ok time :=
  h 0 (Nat.succ_pos _) (Or.inl rfl)

/-- After a transfer that leaves something, the others count from where it ends. -/
theorem Timed.rest {a : Attempt σ α} {r' : Receiver α}
    (h : Timed (a :: attempts) r.frameSize r.rate r.run.streamStart r.run.produced r.run.mode)
    (hr' : r' = { r with run := (advance r.run (a.limit r.frameSize)).1 })
    (hleft : ∀ m, m = 0 ∨ r'.run.mode.Exceeds m →
      r.run.mode.Exceeds (a.limit r.frameSize + m)) :
    Timed attempts r'.frameSize r'.rate r'.run.streamStart r'.run.produced r'.run.mode := by
  have hframe : r'.frameSize = r.frameSize := by rw [hr']
  have hrate : r'.rate = r.rate := by rw [hr']
  have hstart : r'.run.streamStart = r.run.streamStart := by rw [hr', advance_eq]
  have hproduced : r'.run.produced = r.run.produced + a.limit r.frameSize := by
    rw [hr', advance_eq]
  intro i hi hexceeds
  rw [hframe] at hexceeds ⊢
  have hmore : i = 0 → asked r.frameSize (attempts.take i) = 0 := by
    rintro rfl
    rfl
  obtain ⟨time, htime⟩ := h (i + 1) (Nat.succ_lt_succ hi)
    (Or.inr (hleft _ (hexceeds.imp_left hmore)))
  refine ⟨time, ?_⟩
  rw [hrate, hstart, hproduced, Nat.add_assoc]
  exact htime

/-- From any point of a burst on, the transfers deliver what is left of it. -/
theorem finiteBurst_of_settled (h : r.Settled office) {n : Nat} {told : Bool}
    (hmode : r.run.mode = .finite n told) (hundisturbed : Undisturbed attempts r office)
    (htimed : Timed attempts r.frameSize r.rate r.run.streamStart r.run.produced r.run.mode) :
    FiniteBurst n told r.frameSize attempts (transfers attempts r) := by
  induction attempts generalizing r n with
  | nil => exact FiniteBurst.nil
  | cons a attempts ih =>
    obtain ⟨time, htime⟩ := htimed.first
    have hactive : r.run.mode ≠ .idle := by simp [hmode]
    obtain ⟨hreports, hreceiver⟩ := answer_of_addSecs hactive htime a
    rw [portion_of_finite hmode] at hreports hreceiver
    obtain ⟨hafter, hend⟩ := advance_of_finite hmode (Nat.min_le_right (a.limit r.frameSize) n)
    have hsettled := settled_answer a h
    have hrest := hundisturbed.rest (receiver_answer a r)
    rw [hend] at hreports
    rw [transfers_cons h (hundisturbed.accepted a List.mem_cons_self)
      (hundisturbed.quiet a List.mem_cons_self)]
    by_cases hlast : n ≤ a.limit r.frameSize
    · -- the burst ends here, and the stream comes to rest
      rw [Nat.min_eq_right hlast] at hreports hreceiver hafter
      refine FiniteBurst.last (by simpa using hreports) hlast ?_
      refine transfers_of_idle hsettled ?_ hrest
      rw [hreceiver, hafter, if_pos rfl]
    · -- something is left, and the others follow with that
      have hless : a.limit r.frameSize < n := Nat.lt_of_not_le hlast
      rw [Nat.min_eq_left hless.le] at hreports hreceiver hafter
      rw [if_neg hless.ne] at hafter
      have hmore : (a.limit r.frameSize == n) = false := by simpa using hless.ne
      rw [hmore, Bool.and_false] at hreports
      have hmode' : (a.answer r).receiver.run.mode = .finite (n - a.limit r.frameSize) told := by
        rw [hreceiver, hafter]
      have hframe : (a.answer r).receiver.frameSize = r.frameSize := by rw [hreceiver]
      have hfinite := ih hsettled hmode' hrest (htimed.rest hreceiver fun m hm => by
        rw [hmode'] at hm
        rw [hmode]
        have hm' : m = 0 ∨ m < n - a.limit r.frameSize := hm
        show a.limit r.frameSize + m < n
        omega)
      rw [hframe] at hfinite
      exact FiniteBurst.cons hreports hless hfinite

/-- From any point of a burst without end on, every transfer delivers what is asked. -/
theorem endlessBurst_of_settled (h : r.Settled office) (hmode : r.run.mode = .continuous)
    (hundisturbed : Undisturbed attempts r office)
    (htimed : Timed attempts r.frameSize r.rate r.run.streamStart r.run.produced r.run.mode) :
    EndlessBurst r.frameSize attempts (transfers attempts r) := by
  induction attempts generalizing r with
  | nil => simp [EndlessBurst]
  | cons a attempts ih =>
    obtain ⟨time, htime⟩ := htimed.first
    have hactive : r.run.mode ≠ .idle := by simp [hmode]
    obtain ⟨hreports, hreceiver⟩ := answer_of_addSecs hactive htime a
    rw [portion_of_continuous hmode] at hreports hreceiver
    have hadvance : (advance r.run (a.limit r.frameSize)).1.mode = .continuous ∧
        (advance r.run (a.limit r.frameSize)).2 = false := by
      simp [advance, hmode]
    have hframe : (a.answer r).receiver.frameSize = r.frameSize := by rw [hreceiver]
    have hmode' : (a.answer r).receiver.run.mode = .continuous := by rw [hreceiver, hadvance.1]
    have hrest := ih (settled_answer a h) hmode' (hundisturbed.rest (receiver_answer a r))
      (htimed.rest hreceiver fun m _ => by
        rw [hmode]
        trivial)
    rw [hadvance.2] at hreports
    rw [hframe] at hrest
    rw [transfers_cons h (hundisturbed.accepted a List.mem_cons_self)
      (hundisturbed.quiet a List.mem_cons_self)]
    intro i b x hb hx
    cases i with
    | zero =>
      obtain rfl : a = b := by simpa using hb
      obtain rfl : a.answer r = x := by simpa using hx
      exact hreports
    | succ i => exact hrest i b x hb hx

/-- After a command to start at once, the transfers are those of the stream that has carried it
out. -/
theorem transfers_of_due {command : StreamCommand α} (h : r.Due office command)
    (hundisturbed : Undisturbed attempts r office) {start : TimeSpec α}
    (hstart : ∀ a ∈ attempts.head?, a.now = .ok start) :
    transfers attempts r = transfers attempts (r.started command start office) := by
  cases attempts with
  | nil => rfl
  | cons a attempts =>
    have haccepted := hundisturbed.accepted a List.mem_cons_self
    have hquiet := hundisturbed.quiet a List.mem_cons_self
    have hsettled := settled_started h.late command start office
    have hstarted : transfers (a :: attempts) (r.started command start office) =
        a.answer (r.started command start office) ::
          transfers attempts (a.answer (r.started command start office)).receiver :=
      transfers_cons hsettled haccepted hquiet
    rw [hstarted]
    show a.on r :: transfers attempts (a.on r).receiver = _
    rw [on_of_due h haccepted hquiet (hstart a rfl)]

end Attempt

namespace Stage

open Attempt Receiver

variable [Scalar α] {s : Stage α}

/-- What follows a command to start at once, whatever happened before it.  As long as no further
command reaches the channels of the stream and every time can be computed, a number of samples
that is asked for is delivered, over as many transfers as it takes, and the last of them ends the
burst; samples without end are delivered by every transfer. -/
theorem Reachable.transfers_after_start (h : s.Reachable) {command : StreamCommand α}
    (himmediate : command.immediate) (now : TimeSpec α) {posted : List Nat}
    (hposted : ∃ c ∈ posted, c ∈ s.receiver.channels) {attempts : List (Attempt σ α)}
    (hundisturbed :
      Undisturbed attempts s.receiver (s.office.issueAll command now posted))
    {start : TimeSpec α} (hstart : ∀ a ∈ attempts.head?, a.now = .ok start)
    (htimed :
      Timed attempts s.receiver.frameSize s.receiver.rate start 0 (modeOf command)) :
    let xs := transfers attempts s.receiver
    xs.length = attempts.length ∧
      (command.mode = .samplesAndDone ∨ command.mode = .samplesAndMore →
        FiniteBurst command.count (command.mode = .samplesAndDone) s.receiver.frameSize attempts
          xs) ∧
      (command.mode = .startContinuous → EndlessBurst s.receiver.frameSize attempts xs) := by
  intro xs
  have hdue := h.due_issueAll himmediate now hposted
  generalize s.office.issueAll command now posted = office at hdue hundisturbed
  have hsettled := settled_started h.late command start office
  have hxs : xs = transfers attempts (s.receiver.started command start office) :=
    transfers_of_due hdue hundisturbed hstart
  have hundisturbed' : Undisturbed attempts (s.receiver.started command start office) office :=
    hundisturbed.congr rfl
  rw [hxs]
  refine ⟨length_transfers _ _, fun hfinite => ?_, fun hendless => ?_⟩
  · have hstop : command.mode ≠ .stopContinuous := by
      rcases hfinite with hm | hm <;> simp [hm]
    have hrun := s.receiver.run_started hstop start office
    refine finiteBurst_of_settled hsettled ?_ hundisturbed' ?_
    · rw [hrun]
      rcases hfinite with hm | hm <;> simp [modeOf, hm]
    · rw [hrun]
      exact htimed
  · have hstop : command.mode ≠ .stopContinuous := by simp [hendless]
    have hrun := s.receiver.run_started hstop start office
    refine endlessBurst_of_settled hsettled ?_ hundisturbed' ?_
    · rw [hrun]
      simp [modeOf, hendless]
    · rw [hrun]
      exact htimed

/-- Five samples in four transfers: one packet, none, the rest, and too late. -/
theorem five_in_four :
    let attempts := [still 4 true, still 0 false, still 4 false, still 1 false]
    let xs := transfers attempts threes.receiver
    FiniteBurst 5 true 3 attempts xs ∧ Received.total xs = 5 := by
  intro attempts xs
  have hundisturbed : Undisturbed attempts threes.receiver
      (threes.office.issueAll five TimeSpec.zero [0]) := by
    constructor
    · intro a ha
      simp only [attempts, List.mem_cons, List.not_mem_nil, or_false] at ha
      rcases ha with rfl | rfl | rfl | rfl <;> rfl
    · intro a ha
      simp only [attempts, List.mem_cons, List.not_mem_nil, or_false] at ha
      rcases ha with rfl | rfl | rfl | rfl <;> exact quiet_still _ _
  have hstart : ∀ a ∈ attempts.head?, a.now = .ok (TimeSpec.zero : TimeSpec ℚ) := by
    intro a ha
    obtain rfl : still 4 true = a := by simpa [attempts] using ha
    exact now_still 4 true
  have htimed : Timed attempts 3 1 (TimeSpec.zero : TimeSpec ℚ) 0 (modeOf five) := by
    intro i hi _
    have hfits : ∀ i < 4, Word.fits (0 + asked 3 (attempts.take i) : Nat) := by decide
    have hseconds : (Scalar.ofInt (0 + asked 3 (attempts.take i) : Nat) / 1 : ℚ) =
        (0 + asked 3 (attempts.take i) : Nat) := by
      show (((0 + asked 3 (attempts.take i) : Nat) : Int) : ℚ) / 1 = _
      rw [div_one, Int.cast_natCast]
    rw [hseconds]
    exact ⟨_, TimeSpec.addSecs_zero (hfits i hi)⟩
  have himmediate : five.immediate := rfl
  obtain ⟨-, hfive, -⟩ := (Reachable.opened [] 0 .sc8 1 3 (by decide)).transfers_after_start
    himmediate TimeSpec.zero (by decide) hundisturbed hstart htimed
  have hfinite := hfive (Or.inl rfl)
  exact ⟨hfinite, hfinite.total⟩

end Stage

end SoftRadio
