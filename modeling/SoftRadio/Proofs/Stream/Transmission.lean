import SoftRadio.Proofs.Outcome
import SoftRadio.Proofs.Stream.Packets

/-!
# What a transmission reports

Packets are sent on a stream and reports are taken out, in any order.  The state of the stream holds
a start and a count; that these belong to the burst which the history of packets gives is an
invariant, kept by every call as long as nothing overflows.

* `Sender.accept_eq`: what becomes of one packet, in terms of the packets before it.
* `Sender.Tracks`, `Tracks.serve`: the invariant, and what a call does to it and to the queue.
* `InBounds.tracks`, `InBounds.sublist_allReports`: after any calls.
* `Sender.Accounts`, `accounts_after_calls`: how the next call is answered and what it reports.
-/

namespace SoftRadio

variable {α : Type}

/-- A call on a transmit stream.  A packet is sent when some time has passed on the clock of the
stream's motherboard; a report is asked for without waiting. -/
inductive TxCall (α : Type) where
  | send (sizes : List Nat) (count : Nat) (md : TxMetadata α) (clock : Clock α) (elapsed : α)
  | nextEvent

/-- The clock can be read, if the call reads it. -/
def TxCall.readsClock [Scalar α] : TxCall α → Bool
  | .send _ _ _ clock elapsed => (clock.now elapsed).isOk
  | .nextEvent => true

inductive TxAnswer (α : Type) where
  | sent (result : Except Fault Nat)
  | event (report : Option (AsyncMetadata α))
  deriving DecidableEq

/-- What was reported, if a report was asked for and there was one. -/
def TxAnswer.report? : TxAnswer α → Option (AsyncMetadata α)
  | .sent _ => none
  | .event report => report

namespace Packet

variable [Scalar α]

/-- The samples and the times of a packet fit into their words, when others were sent before. -/
def Fits (rate : α) (sent : List (Packet α)) (p : Packet α) : Prop :=
  p.late = false → total (p.burst sent) < Word.limit ∧
    (p.md.endOfBurst = true → (burstEnd rate (p.burst sent)).isOk = true)

instance (rate : α) (sent : List (Packet α)) (p : Packet α) : Decidable (p.Fits rate sent) :=
  inferInstanceAs (Decidable (_ → _ ∧ (_ → _)))

end Packet

open Packet

/-- The state of a burst that consists of some packets. -/
def Burst.ofPackets [Scalar α] : List (Packet α) → Burst α
  | [] => Burst.none
  | first :: more => ⟨true, first.start, total (first :: more)⟩

namespace Sender

variable [Scalar α]

/-! ## Runs -/

/-- The answer to a call, and the stream after it. -/
def serve (s : Sender α) : TxCall α → TxAnswer α × Sender α
  | .send sizes count md clock elapsed =>
    let (result, s) := s.send sizes count md clock elapsed
    (.sent result, s)
  | .nextEvent =>
    let (report, s) := s.nextEvent
    (.event report, s)

/-- The stream after some calls. -/
def run (s : Sender α) (calls : List (TxCall α)) : Sender α :=
  calls.foldl (fun s call => (s.serve call).2) s

/-- The answers to some calls. -/
def answers (s : Sender α) : List (TxCall α) → List (TxAnswer α)
  | [] => []
  | call :: calls => (s.serve call).1 :: answers (s.serve call).2 calls

/-- The reports that were taken out by some calls. -/
def taken (s : Sender α) (calls : List (TxCall α)) : List (AsyncMetadata α) :=
  (s.answers calls).filterMap TxAnswer.report?

/-- The packet of a call, if the stream accepts its buffers. -/
def packet? (s : Sender α) : TxCall α → Option (Packet α)
  | .send sizes count md clock elapsed =>
    match checkBuffers sizes.length s.channelCount sizes count s.itemSize, clock.now elapsed with
    | .ok (), .ok now => some ⟨count, md, now⟩
    | _, _ => none
  | .nextEvent => none

/-- The packets that were sent by some calls. -/
def packets (s : Sender α) (calls : List (TxCall α)) : List (Packet α) := calls.filterMap s.packet?

/-- As long as calls are made on a stream, no total of samples and no time overflows. -/
structure InBounds (s : Sender α) (calls : List (TxCall α)) : Prop where
  clock : ∀ call ∈ calls, call.readsClock = true
  packets : ∀ i (h : i < (s.packets calls).length),
    (s.packets calls)[i].Fits s.rate ((s.packets calls).take i)

variable {s s₀ : Sender α} {sent : List (Packet α)} {p : Packet α} {call : TxCall α}
  {calls rest before : List (TxCall α)}

/-! ## One call -/

omit [Scalar α] in
/-- Of some reports, so many are kept as there is room for. -/
theorem foldl_enqueue (reports events : List (AsyncMetadata α)) :
    reports.foldl enqueue events = events ++ reports.take (queueDepth - events.length) := by
  induction reports generalizing events with
  | nil => simp
  | cons e reports ih =>
    rw [List.foldl_cons, ih, enqueue]
    split
    next h =>
      obtain ⟨n, hn⟩ : ∃ n, queueDepth - events.length = n + 1 :=
        ⟨queueDepth - events.length - 1, by omega⟩
      have hrest : queueDepth - (events ++ [e]).length = n := by
        rw [List.length_append, List.length_singleton]
        omega
      rw [hrest, hn, List.take_succ_cons, List.append_assoc]
      rfl
    next h =>
      rw [Nat.sub_eq_zero_of_le (Nat.le_of_not_lt h), List.take_zero, List.take_zero]

omit [Scalar α] in
theorem post_eq (s : Sender α) (event : AsyncEvent) (time : TimeSpec α) :
    s.post event time = { s with events :=
      s.events ++ (onEach s.channelCount event time).take (queueDepth - s.events.length) } := by
  unfold post
  exact congrArg (fun events => { s with events := events }) (foldl_enqueue _ _)

/-- The burst that a packet belongs to, with the packet. -/
theorem burstFor_add (h : s.burst = Burst.ofPackets (openBurst sent)) (p : Packet α) :
    { s.burstFor p.md p.now with sent := (s.burstFor p.md p.now).sent + p.count } =
      Burst.ofPackets (p.burst sent) := by
  unfold burstFor Packet.burst join
  rw [h]
  by_cases hstart : p.md.startOfBurst = true
  · simp [hstart, Burst.ofPackets, Packet.start, Packet.total]
  · cases hopen : openBurst sent with
    | nil => simp [hstart, Burst.ofPackets, Burst.none, Packet.start, Packet.total]
    | cons first more => simp [hstart, Burst.ofPackets, Packet.total, Nat.add_assoc]

/-- The stream after a packet, when others were sent on it before. -/
def after (s : Sender α) (sent : List (Packet α)) (p : Packet α) : Sender α :=
  { s with
    burst := Burst.ofPackets (openBurst (sent ++ [p]))
    events := s.events ++
      (p.reports s.channelCount s.rate sent).take (queueDepth - s.events.length) }

theorem ofPackets_sent (packets : List (Packet α)) :
    (Burst.ofPackets packets).sent = total packets := by
  cases packets <;> rfl

theorem addSecs_ofPackets {packets : List (Packet α)} {rate : α} (h : packets ≠ []) :
    (Burst.ofPackets packets).start.addSecs (Scalar.ofInt (total packets) / rate) =
      burstEnd rate packets := by
  cases packets with
  | nil => exact absurd rfl h
  | cons first more => rfl

/-- A packet that fits is sent, or is reported for being late. -/
theorem accept_eq (hburst : s.burst = Burst.ofPackets (openBurst sent))
    (hfits : p.Fits s.rate sent) :
    s.accept p.count p.md p.now = (.ok (if p.late then 0 else p.count), s.after sent p) := by
  have hguard : (p.md.hasTime && p.md.time.isBefore p.now) = p.late := rfl
  unfold accept after reports
  rw [hguard, openBurst_concat]
  cases hlate : p.late with
  | true =>
    rw [post_eq]
    rfl
  | false =>
    have hjoined := burstFor_add hburst p
    have hsum : (s.burstFor p.md p.now).sent + p.count = total (p.burst sent) := by
      rw [← ofPackets_sent, ← hjoined]
    have hroom : ¬ Word.limit ≤ (s.burstFor p.md p.now).sent + p.count := by
      rw [hsum]
      exact Nat.not_le_of_lt (hfits hlate).1
    have hfrom : (s.burstFor p.md p.now).start = (Burst.ofPackets (p.burst sent)).start := by
      rw [← hjoined]
    dsimp only
    rw [if_neg Bool.false_ne_true, if_neg hroom, hjoined, hsum, hfrom,
      addSecs_ofPackets (burst_ne_nil sent p), Bool.false_or]
    cases hend : p.md.endOfBurst with
    | true =>
      obtain ⟨time, htime⟩ := isOk_iff.1 ((hfits hlate).2 hend)
      simp only [htime, post_eq]
      rfl
    | false => simp

theorem serve_nextEvent (s : Sender α) :
    s.serve .nextEvent = (.event s.events.head?, { s with events := s.events.tail }) := by
  cases hevents : s.events with
  | nil =>
    simp only [serve, nextEvent, hevents, List.head?_nil, List.tail_nil]
    rw [← hevents]
  | cons e rest => simp only [serve, nextEvent, hevents, List.head?_cons, List.tail_cons]

section

variable {sizes : List Nat} {count : Nat} {md : TxMetadata α} {clock : Clock α} {elapsed : α}

theorem packet?_send {now : TimeSpec α}
    (hbuffers : checkBuffers sizes.length s.channelCount sizes count s.itemSize = .ok ())
    (hnow : clock.now elapsed = .ok now) :
    s.packet? (.send sizes count md clock elapsed) = some ⟨count, md, now⟩ := by
  simp only [packet?, hbuffers, hnow]

theorem serve_of_refused {f : Fault}
    (h : checkBuffers sizes.length s.channelCount sizes count s.itemSize = .error f) :
    s.serve (.send sizes count md clock elapsed) = (.sent (.error f), s) := by
  simp only [serve, send, h]

end

/-- A send without a packet changes nothing. -/
theorem serve_of_packet?_eq_none {sizes count md clock elapsed}
    (h : s.packet? (.send sizes count md clock elapsed) = none) :
    ∃ f, s.serve (.send sizes count md clock elapsed) = (.sent (.error f), s) := by
  cases hbuffers : checkBuffers sizes.length s.channelCount sizes count s.itemSize with
  | error f => exact ⟨f, serve_of_refused hbuffers⟩
  | ok =>
    cases hnow : clock.now elapsed with
    | error f => exact ⟨f, by simp only [serve, send, hbuffers, hnow]⟩
    | ok now => simp [packet?_send hbuffers hnow] at h

/-- A send with a packet is answered by what becomes of it. -/
theorem serve_of_packet? (hcall : s.packet? call = some p)
    (hburst : s.burst = Burst.ofPackets (openBurst sent)) (hfits : p.Fits s.rate sent) :
    s.serve call = (.sent (.ok (if p.late then 0 else p.count)), s.after sent p) := by
  cases call with
  | nextEvent => simp [packet?] at hcall
  | send sizes count md clock elapsed =>
    simp only [packet?] at hcall
    split at hcall
    next now hbuffers hnow =>
      obtain rfl := Option.some.inj hcall
      simp only [serve, send, hbuffers, hnow]
      rw [accept_eq hburst hfits]
    next => cases hcall

/-! ## Calls after others -/

/-- The stream is in the state that the packets sent on it give. -/
structure Tracks (s₀ s : Sender α) (sent : List (Packet α)) : Prop where
  shape : s = { s₀ with burst := s.burst, events := s.events }
  burst : s.burst = Burst.ofPackets (openBurst sent)

/-- The same packets are sent on a stream whatever was sent on it before. -/
theorem Tracks.packet?_eq (h : Tracks s₀ s sent) (call : TxCall α) :
    s.packet? call = s₀.packet? call := by
  rw [h.shape]
  cases call <;> rfl

theorem Tracks.channelCount_eq (h : Tracks s₀ s sent) : s.channelCount = s₀.channelCount := by
  rw [h.shape]
  rfl

theorem Tracks.rate_eq (h : Tracks s₀ s sent) : s.rate = s₀.rate := by rw [h.shape]

theorem Tracks.serve_eq (h : Tracks s₀ s sent) (hcall : s₀.packet? call = some p)
    (hfits : p.Fits s₀.rate sent) :
    s.serve call = (.sent (.ok (if p.late then 0 else p.count)), s.after sent p) :=
  serve_of_packet? ((h.packet?_eq call).trans hcall) h.burst (h.rate_eq ▸ hfits)

/-- What one call makes of the packets sent and of the reports: a report that is taken out is the
oldest one, and so many are added as there is room for. -/
theorem Tracks.serve (h : Tracks s₀ s sent)
    (hfits : ∀ p, s₀.packet? call = some p → p.Fits s₀.rate sent) :
    Tracks s₀ (s.serve call).2 (sent ++ (s₀.packet? call).toList) ∧
      (s.serve call).1.report?.toList ++ (s.serve call).2.events = s.events ++
        (allReports s₀.channelCount s₀.rate sent (s₀.packet? call).toList).take
          (queueDepth - s.events.length) := by
  cases hcall : s₀.packet? call with
  | some p =>
    rw [h.serve_eq hcall (hfits p hcall)]
    refine ⟨⟨?_, rfl⟩, ?_⟩
    · exact h.shape ▸ rfl
    · simp [TxAnswer.report?, allReports, after, h.channelCount_eq, h.rate_eq]
  | none =>
    simp only [Option.toList_none, List.append_nil, allReports, List.take_nil]
    cases call with
    | nextEvent =>
      rw [serve_nextEvent]
      exact ⟨⟨h.shape ▸ rfl, h.burst⟩, by cases s.events <;> rfl⟩
    | send sizes count md clock elapsed =>
      obtain ⟨f, hserve⟩ := serve_of_packet?_eq_none ((h.packet?_eq _).trans hcall)
      rw [hserve]
      exact ⟨h, rfl⟩

theorem run_concat (s : Sender α) (calls : List (TxCall α)) (call : TxCall α) :
    s.run (calls ++ [call]) = ((s.run calls).serve call).2 := by
  unfold run
  rw [List.foldl_append]
  rfl

theorem answers_concat (s : Sender α) (calls : List (TxCall α)) (call : TxCall α) :
    s.answers (calls ++ [call]) = s.answers calls ++ [((s.run calls).serve call).1] := by
  induction calls generalizing s with
  | nil => rfl
  | cons first calls ih => exact congrArg _ (ih _)

theorem taken_concat (s : Sender α) (calls : List (TxCall α)) (call : TxCall α) :
    s.taken (calls ++ [call]) = s.taken calls ++ ((s.run calls).serve call).1.report?.toList := by
  unfold taken
  rw [answers_concat]
  simp [List.filterMap_eq_flatMap_toList]

theorem packets_append (s : Sender α) (calls rest : List (TxCall α)) :
    s.packets (calls ++ rest) = s.packets calls ++ s.packets rest :=
  List.filterMap_append

theorem packets_concat (s : Sender α) (calls : List (TxCall α)) (call : TxCall α) :
    s.packets (calls ++ [call]) = s.packets calls ++ (s.packet? call).toList := by
  simp [packets, List.filterMap_eq_flatMap_toList]

theorem InBounds.of_append (h : s.InBounds (calls ++ rest)) : s.InBounds calls where
  clock := fun call hmem => h.clock call (List.mem_append_left _ hmem)
  packets := by
    intro i hi
    have hfits := h.packets i (by rw [packets_append, List.length_append]; omega)
    simpa [packets_append, List.getElem_append_left hi, List.take_append_of_le_length hi.le]
      using hfits

theorem InBounds.fits (h : s.InBounds (calls ++ [call])) :
    ∀ p, s.packet? call = some p → p.Fits s.rate (s.packets calls) := by
  intro p hp
  have hfits := h.packets (s.packets calls).length (by simp [packets_concat, hp])
  simpa [packets_concat, hp] using hfits

/-- A stream on which nothing was sent yet. -/
structure Fresh (s : Sender α) : Prop where
  burst : s.burst = Burst.none
  events : s.events = []

theorem fresh_make (channels : List Nat) (board : Nat) (format : SampleFormat) (rate : α)
    (frameSize : Nat) : (make channels board format rate frameSize).Fresh := ⟨rfl, rfl⟩

/-- After any calls the burst is the one that the history of packets gives. -/
theorem InBounds.tracks (h : s.InBounds calls) (hfresh : s.Fresh) :
    Tracks s (s.run calls) (s.packets calls) := by
  induction calls using List.reverseRecOn with
  | nil => exact ⟨rfl, hfresh.burst⟩
  | append_singleton calls call ih =>
    rw [run_concat, packets_concat]
    exact ((ih h.of_append).serve h.fits).1

theorem InBounds.length_events_le (h : s.InBounds calls) (hfresh : s.Fresh) :
    (s.run calls).events.length ≤ queueDepth := by
  induction calls using List.reverseRecOn with
  | nil => simp [run, hfresh.events]
  | append_singleton calls call ih =>
    have hroom := ih h.of_append
    have hlength := congrArg List.length ((h.of_append.tracks hfresh).serve h.fits).2
    rw [List.length_append, List.length_append, List.length_take] at hlength
    rw [run_concat]
    omega

/-- The reports taken out and those that wait are reports of what happened, in order. -/
theorem InBounds.sublist_allReports (h : s.InBounds calls) (hfresh : s.Fresh) :
    (s.taken calls ++ (s.run calls).events).Sublist
      (allReports s.channelCount s.rate [] (s.packets calls)) := by
  induction calls using List.reverseRecOn with
  | nil => simp [taken, answers, run, hfresh.events]
  | append_singleton calls call ih =>
    have hstep := ((h.of_append.tracks hfresh).serve h.fits).2
    rw [taken_concat, run_concat, packets_concat, allReports_append, List.append_assoc, hstep,
      ← List.append_assoc]
    exact (ih h.of_append).append (List.take_sublist _ _)

/-! ## The account of a transmission -/

/-- A call that is made after some others is answered by a number of samples and adds some reports
to the queue, as far as there is room for them. -/
structure Gives (s : Sender α) (before : List (TxCall α)) (call : TxCall α) (count : Nat)
    (reports : List (AsyncMetadata α)) : Prop where
  answer : ((s.run before).serve call).1 = .sent (.ok count)
  events : ((s.run before).serve call).2.events =
    (s.run before).events ++ reports.take (queueDepth - (s.run before).events.length)

/-- What happens on a stream at a call that is made after some others. -/
structure Accounts (s : Sender α) (before : List (TxCall α)) (call : TxCall α) : Prop where
  /-- If its buffers are refused, the stream stays as it is. -/
  refused : ∀ sizes count md clock elapsed f, call = .send sizes count md clock elapsed →
    checkBuffers sizes.length s.channelCount sizes count s.itemSize = .error f →
      (s.run before).serve call = (.sent (.error f), s.run before)
  /-- Otherwise it sends a packet. -/
  accepted : ∀ sizes count md clock elapsed, call = .send sizes count md clock elapsed →
    checkBuffers sizes.length s.channelCount sizes count s.itemSize = .ok () →
      ∃ now, clock.now elapsed = .ok now ∧ s.packet? call = some ⟨count, md, now⟩
  /-- A packet that is late is dropped, and reported on every channel with its time. -/
  late : ∀ p, s.packet? call = some p → p.late = true →
    s.Gives before call 0 (onEach s.channelCount .timeError p.md.time)
  /-- One that does not end its burst is counted. -/
  goesOn : ∀ p, s.packet? call = some p → p.late = false → p.md.endOfBurst = false →
    s.Gives before call p.count []
  /-- One that ends its burst is counted as well, and the burst is acknowledged on every channel
  with the time at which all of its samples have left. -/
  ends : ∀ p, s.packet? call = some p → p.late = false → p.md.endOfBurst = true →
    ∃ earlier first more time, s.packets before ++ [p] = earlier ++ first :: more ∧
      BurstIs earlier first more ∧
      first.start.addSecs (Scalar.ofInt (total (first :: more)) / s.rate) = .ok time ∧
      s.Gives before call p.count (onEach s.channelCount .burstAck time)
  /-- The oldest report is taken out, if there is one. -/
  asked : call = .nextEvent → (s.run before).serve call =
    (.event (s.run before).events.head?,
      { s.run before with events := (s.run before).events.tail })
  /-- The queue does not grow beyond its depth. -/
  depth : (s.run (before ++ [call])).events.length ≤ queueDepth
  /-- What was taken out and what waits is in the order in which it was reported. -/
  inOrder : (s.taken (before ++ [call]) ++ (s.run (before ++ [call])).events).Sublist
    (allReports s.channelCount s.rate [] (s.packets (before ++ [call])))

/-- What a packet gives, late or not. -/
theorem InBounds.gives (h : s.InBounds (before ++ [call])) (hfresh : s.Fresh)
    (hcall : s.packet? call = some p) : s.Gives before call (if p.late then 0 else p.count)
      (p.reports s.channelCount s.rate (s.packets before)) := by
  have htracks := h.of_append.tracks hfresh
  have hserve := htracks.serve_eq hcall (h.fits p hcall)
  exact ⟨congrArg Prod.fst hserve, by rw [hserve, after, htracks.channelCount_eq, htracks.rate_eq]⟩

theorem InBounds.accounts (h : s.InBounds (before ++ [call]))
    (hfresh : s.Fresh) : s.Accounts before call := by
  have htracks := h.of_append.tracks hfresh
  constructor
  case refused =>
    rintro sizes count md clock elapsed f rfl hf
    refine serve_of_refused ?_
    rwa [htracks.shape]
  case accepted =>
    rintro sizes count md clock elapsed rfl hbuffers
    obtain ⟨now, hnow⟩ := isOk_iff.1 (h.clock _ (List.mem_append_right _ List.mem_cons_self))
    exact ⟨now, hnow, packet?_send hbuffers hnow⟩
  case late =>
    intro p hcall hlate
    simpa [reports, hlate] using h.gives hfresh hcall
  case goesOn =>
    intro p hcall hlate hend
    simpa [reports, hlate, hend] using h.gives hfresh hcall
  case ends =>
    intro p hcall hlate hend
    obtain ⟨first, more, hburst⟩ := List.exists_cons_of_ne_nil (burst_ne_nil (s.packets before) p)
    obtain ⟨earlier, heq, his⟩ := (burst_eq_cons_iff hlate).1 hburst
    obtain ⟨time, htime⟩ := isOk_iff.1 ((h.fits p hcall hlate).2 hend)
    refine ⟨earlier, first, more, time, heq, his, ?_, ?_⟩
    · rwa [hburst] at htime
    · simpa [reports, hlate, hend, htime] using h.gives hfresh hcall
  case asked =>
    rintro rfl
    exact serve_nextEvent _
  case depth => exact h.length_events_le hfresh
  case inOrder => exact h.sublist_allReports hfresh

/-- Whatever happened on a stream since it was opened, the next call is accounted for. -/
theorem accounts_after_calls (channels : List Nat) (board : Nat) (format : SampleFormat) (rate : α)
    (frameSize : Nat) (before : List (TxCall α)) (call : TxCall α)
    (h : (make channels board format rate frameSize).InBounds (before ++ [call])) :
    (make channels board format rate frameSize).Accounts before call :=
  h.accounts (fresh_make channels board format rate frameSize)

/-! ### A burst on two channels -/

/-- A stream on two channels, of four samples a second. -/
def pair : Sender ℚ := make [0, 1] 0 .sc16 4 100

/-- A packet that is a second late, one that begins a burst at two seconds, and one that would
begin another, but comes with a single buffer. -/
def opening : List (TxCall ℚ) := [
  .send [8, 8] 2 ⟨true, ⟨0, 0⟩, true, false⟩ Clock.start 1,
  .send [8, 8] 2 ⟨true, ⟨2, 0⟩, false, false⟩ Clock.start 1,
  .send [8] 2 ⟨false, ⟨0, 0⟩, true, false⟩ Clock.start 1]

/-- A packet of three samples that ends the burst. -/
def closing : TxCall ℚ := .send [12, 12] 3 ⟨false, ⟨0, 0⟩, false, true⟩ Clock.start (3 / 2)

theorem accounts_of_closing :
    pair.InBounds (opening ++ [closing]) ∧ pair.Accounts opening closing ∧
      ((pair.run opening).serve closing).1 = .sent (.ok 3) ∧
      (pair.run (opening ++ [closing])).events =
        onEach 2 .timeError ⟨0, 0⟩ ++ onEach 2 .burstAck ⟨3, 1 / 4⟩ := by
  have hbounds : pair.InBounds (opening ++ [closing]) := ⟨by decide +kernel, by decide +kernel⟩
  exact ⟨hbounds, accounts_after_calls [0, 1] 0 .sc16 4 100 opening closing hbounds,
    by decide +kernel, by decide +kernel⟩

end Sender

end SoftRadio
