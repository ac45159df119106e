import SoftRadio.Proofs.Stream.Transmission

/-!
# The rest of a burst after a late packet

A late packet ends its burst.  What the stream is left with is the state between two bursts, and in
this state a packet is sent whether it says that it begins a burst or not.

* `BurstIs.behind_late`: of the packets behind a late one, the last ones on time are a burst.
* `Sender.RestDropped`: nothing of the rest of a burst is sent or acknowledged.
* `InBounds.dropped_iff`, `InBounds.sentAnew`: when a packet is dropped, and what becomes of it
  otherwise.
* `rest_after_late`: the rest is dropped so far as it is late as well, and is sent and acknowledged
  as a burst of its own so far as it is not.
-/

namespace SoftRadio

variable {α : Type} [Scalar α]

namespace Packet

variable {sent rest earlier more : List (Packet α)} {p first : Packet α}

omit [Scalar α] in
theorem mem_onEach {channels : Nat} {event : AsyncEvent} {time : TimeSpec α} {r : AsyncMetadata α}
    (h : r ∈ onEach channels event time) : r.event = event := by
  obtain ⟨c, -, rfl⟩ := List.mem_map.1 h
  rfl

omit [Scalar α] in
/-- None of so many reports of an event is one of it only if there are none. -/
theorem forall_take_onEach_ne_iff {channels n : Nat} {event : AsyncEvent} {time : TimeSpec α} :
    (∀ r ∈ (onEach channels event time).take n, r.event ≠ event) ↔ channels = 0 ∨ n = 0 := by
  have hevent : ∀ r ∈ (onEach channels event time).take n, r.event = event :=
    fun r hr => mem_onEach (List.mem_of_mem_take hr)
  calc (∀ r ∈ (onEach channels event time).take n, r.event ≠ event)
    _ ↔ (onEach channels event time).take n = [] := by
      rw [List.eq_nil_iff_forall_not_mem]
      exact forall_congr' fun r => ⟨fun h hr => h hr (hevent r hr), fun h hr => absurd hr h⟩
    _ ↔ channels = 0 ∨ n = 0 := by
      rw [List.take_eq_nil_iff, onEach, List.map_eq_nil_iff, List.range_eq_nil, or_comm]

/-- Packets on time that were sent last of all were all sent after a late one. -/
theorem exists_eq_append_of_late (heq : sent ++ p :: rest = earlier ++ first :: more)
    (hlate : p.late = true) (hon : ∀ q ∈ first :: more, q.late = false) :
    ∃ pre, earlier = sent ++ p :: pre ∧ rest = pre ++ first :: more := by
  rcases List.append_eq_append_iff.1 heq with ⟨between, hearlier, hrest⟩ | ⟨between, -, hmore⟩
  · cases between with
    | nil =>
      obtain ⟨rfl, -⟩ := List.cons_eq_cons.1 hrest
      exact absurd hlate (by simp [hon])
    | cons q pre =>
      rw [List.cons_append] at hrest
      obtain ⟨rfl, htail⟩ := List.cons_eq_cons.1 hrest
      exact ⟨pre, hearlier, htail⟩
  · exact absurd hlate (by simp [hon p (by simp [hmore])])

/-- The first packet on time behind a late one begins a burst. -/
theorem burstIs_of_late (hlate : p.late = true) (hrest : ∀ q ∈ rest, q.late = true)
    (hfirst : first.late = false) : BurstIs (sent ++ p :: rest) first [] := by
  refine .single hfirst (.inr ?_)
  rintro ⟨q, hq, hon, -⟩
  rw [List.getLast?_append_of_ne_nil _ (List.cons_ne_nil p rest)] at hq
  rcases List.mem_cons.1 (List.mem_of_getLast? hq) with rfl | hmem
  · simp [hlate] at hon
  · simp [hrest q hmem] at hon

/-- The packets of a burst that are sent after a late one, if none of them begins a burst or ends
it but the last: the last ones on time are a burst of their own. -/
theorem BurstIs.behind_late (h : BurstIs earlier first more)
    (heq : sent ++ p :: rest = earlier ++ first :: more) (hlate : p.late = true)
    (hstart : ∀ q ∈ rest, q.md.startOfBurst = false)
    (hend : ∀ q ∈ rest.dropLast, q.md.endOfBurst = false) :
    ∃ pre, rest = pre ++ first :: more ∧ ∀ q ∈ pre.getLast?, q.late = true := by
  obtain ⟨pre, rfl, rfl⟩ := exists_eq_append_of_late heq hlate h.onTime
  refine ⟨pre, rfl, fun q hq => ?_⟩
  have hclosed : ¬ OpenAfter (sent ++ p :: pre) :=
    h.begins.resolve_left (by simp [hstart first (by simp)])
  obtain ⟨init, rfl⟩ := List.getLast?_eq_some_iff.1 hq
  have hgoes : q.md.endOfBurst = false := hend q (by simp [List.dropLast_append_of_ne_nil])
  rw [← List.cons_append, ← List.append_assoc, openAfter_concat_iff] at hclosed
  simpa [hgoes] using hclosed

end Packet

namespace Sender

open Packet

variable {s : Sender α} {before rest mid : List (TxCall α)} {call : TxCall α} {p q : Packet α}

/-- The reports that a call which is made after some others adds to the queue. -/
def added (s : Sender α) (before : List (TxCall α)) (call : TxCall α) : List (AsyncMetadata α) :=
  ((s.run before).serve call).2.events.drop (s.run before).events.length

/-- The packets of the calls `rest` that are made after some others are all dropped: none of them
is answered by samples, and none is acknowledged. -/
def RestDropped (s : Sender α) (before rest : List (TxCall α)) : Prop :=
  ∀ mid call q, mid ++ [call] <+: rest → s.packet? call = some q →
    ((s.run (before ++ mid)).serve call).1 = .sent (.ok 0) ∧
      ∀ r ∈ s.added (before ++ mid) call, r.event ≠ .burstAck

/-- A packet has no samples, and there is nobody to acknowledge it to: it does not end a burst, or
there is no channel, or no room in the queue. -/
def Unnoticed (s : Sender α) (before : List (TxCall α)) (q : Packet α) : Prop :=
  q.count = 0 ∧ (q.md.endOfBurst = true →
    s.channelCount = 0 ∨ queueDepth ≤ (s.run before).events.length)

theorem Gives.added_eq {count : Nat} {reports : List (AsyncMetadata α)}
    (h : s.Gives before call count reports) :
    s.added before call = reports.take (queueDepth - (s.run before).events.length) := by
  unfold added
  rw [h.events, List.drop_left]

/-- Of the packets, late ones are dropped, and those that would not be noticed. -/
theorem InBounds.dropped_iff (h : s.InBounds (before ++ [call])) (hfresh : s.Fresh)
    (hcall : s.packet? call = some q) :
    (((s.run before).serve call).1 = .sent (.ok 0) ∧
        ∀ r ∈ s.added before call, r.event ≠ .burstAck) ↔
      q.late = true ∨ s.Unnoticed before q := by
  have hgives := h.gives hfresh hcall
  rw [hgives.answer, hgives.added_eq, reports]
  cases hlate : q.late with
  | true =>
    refine iff_of_true ⟨rfl, fun r hr => ?_⟩ (.inl rfl)
    rw [mem_onEach (List.mem_of_mem_take hr)]
    decide
  | false =>
    cases hend : q.md.endOfBurst with
    | false => simp [Unnoticed, hend]
    | true =>
      obtain ⟨time, htime⟩ := isOk_iff.1 ((h.fits q hcall hlate).2 hend)
      simp only [Bool.false_eq_true, if_false, if_true, htime, forall_take_onEach_ne_iff, Unnoticed,
        hend, Nat.sub_eq_zero_iff_le, forall_const, false_or, TxAnswer.sent.injEq,
        Except.ok.injEq]

/-- A packet is sent as one of a burst that began right behind the last late packet of those sent
by the calls `mid` after some others, or with the first of them if none is late. -/
structure SentAnew (s : Sender α) (before mid : List (TxCall α)) (call : TxCall α) (q : Packet α) :
    Prop where
  of_more : q.md.endOfBurst = false → s.Gives (before ++ mid) call q.count []
  of_end : q.md.endOfBurst = true → ∃ pre first more time,
    s.packets mid ++ [q] = pre ++ first :: more ∧ (∀ x ∈ pre.getLast?, x.late = true) ∧
      (∀ x ∈ first :: more, x.late = false) ∧
      first.start.addSecs (Scalar.ofInt (total (first :: more)) / s.rate) = .ok time ∧
      s.Gives (before ++ mid) call q.count (onEach s.channelCount .burstAck time)

theorem InBounds.sentAnew {late : TxCall α} (h : s.InBounds (before ++ [late] ++ mid ++ [call]))
    (hfresh : s.Fresh) (hpacket : s.packet? late = some p) (hlate : p.late = true)
    (hcall : s.packet? call = some q) (hon : q.late = false)
    (hstart : ∀ x ∈ s.packets mid ++ [q], x.md.startOfBurst = false)
    (hend : ∀ x ∈ s.packets mid, x.md.endOfBurst = false) :
    s.SentAnew (before ++ [late]) mid call q := by
  have haccounts := h.accounts hfresh
  refine ⟨haccounts.goesOn q hcall hon, fun hq => ?_⟩
  obtain ⟨earlier, first, more, time, heq, his, htime, hgives⟩ := haccounts.ends q hcall hon hq
  have hsent : s.packets before ++ p :: (s.packets mid ++ [q]) = earlier ++ first :: more := by
    rw [← heq, packets_append, packets_concat, hpacket]
    simp
  obtain ⟨pre, hpre, hlast⟩ := his.behind_late hsent hlate hstart (by rwa [List.dropLast_concat])
  exact ⟨pre, first, more, time, hpre, hlast, his.onTime, htime, hgives⟩

/-- What becomes of the rest of a burst, of which one packet was late: it is dropped so far as it is
late as well.  The packets on time are sent, and they are acknowledged as a burst of their own. -/
theorem rest_after_late (channels : List Nat) (board : Nat) (format : SampleFormat) (rate : α)
    (frameSize : Nat) (before rest : List (TxCall α)) (late : TxCall α) (p : Packet α) :
    let s := make channels board format rate frameSize
    s.InBounds (before ++ [late] ++ rest) → s.packet? late = some p → p.late = true →
      (∀ x ∈ s.packets rest, x.md.startOfBurst = false) →
      (∀ x ∈ (s.packets rest).dropLast, x.md.endOfBurst = false) →
      (s.RestDropped (before ++ [late]) rest ↔
        ∀ mid call q, mid ++ [call] <+: rest → s.packet? call = some q →
          q.late = true ∨ s.Unnoticed (before ++ [late] ++ mid) q) ∧
      (∀ mid call q, mid ++ [call] <+: rest → s.packet? call = some q → q.late = false →
        s.SentAnew (before ++ [late]) mid call q) ∧
      ∀ mid call q, mid ++ [call] <+: rest → s.packet? call = some q → q.late = false →
        (∀ x ∈ s.packets mid, x.late = true) →
          BurstIs (s.packets (before ++ [late] ++ mid)) q [] := by
  intro s h hpacket hlate hstart hend
  have hfresh : s.Fresh := fresh_make channels board format rate frameSize
  have hbounds : ∀ {mid call}, mid ++ [call] <+: rest →
      s.InBounds (before ++ [late] ++ mid ++ [call]) := by
    rintro mid call ⟨after, rfl⟩
    rw [← List.append_assoc, ← List.append_assoc] at h
    exact h.of_append
  refine ⟨?_, fun mid call q hprefix hcall hon => ?_, fun mid call q _ _ hon hmid => ?_⟩
  · refine forall_congr' fun mid => forall_congr' fun call => forall_congr' fun q =>
      forall_congr' fun hprefix => forall_congr' fun hcall => ?_
    exact (hbounds hprefix).dropped_iff hfresh hcall
  · have hpackets : s.packets mid ++ [q] <+: s.packets rest := by
      obtain ⟨after, rfl⟩ := hprefix
      rw [packets_append, packets_concat, hcall]
      exact List.prefix_append _ _
    refine (hbounds hprefix).sentAnew hfresh hpacket hlate hcall hon
      (fun x hx => hstart x (hpackets.subset hx)) fun x hx => ?_
    obtain ⟨after, hafter⟩ := hpackets
    refine hend x ?_
    rw [← hafter, List.append_assoc, List.dropLast_append_of_ne_nil (by simp)]
    exact List.mem_append_left _ hx
  · have hfirst : BurstIs (s.packets before ++ p :: s.packets mid) q [] :=
      burstIs_of_late hlate hmid hon
    rw [packets_append, packets_concat, hpacket]
    simpa using hfirst

/-! ### A burst that begins late -/

/-- A stream on one channel, of four samples a second. -/
def single : Sender ℚ := make [0] 0 .sc16 4 100

/-- The first packet of a burst, a second late. -/
def overdue : TxCall ℚ := .send [40] 10 ⟨true, ⟨0, 0⟩, true, false⟩ Clock.start 1

/-- The last packet of the burst, to be sent as soon as the first has left. -/
def remainder : TxCall ℚ := .send [40] 10 ⟨false, ⟨0, 0⟩, false, true⟩ Clock.start 1

theorem sentAnew_remainder :
    single.InBounds ([] ++ [overdue] ++ [remainder]) ∧
      (∀ x ∈ single.packets [remainder], x.md.startOfBurst = false) ∧
      single.SentAnew [overdue] [] remainder ⟨10, ⟨false, ⟨0, 0⟩, false, true⟩, ⟨1, 0⟩⟩ := by
  have hbounds : single.InBounds ([] ++ [overdue] ++ [remainder]) :=
    ⟨by decide +kernel, by decide +kernel⟩
  have hlate : single.packet? overdue = some ⟨10, ⟨true, ⟨0, 0⟩, true, false⟩, ⟨1, 0⟩⟩ := by
    decide +kernel
  have hstart : ∀ x ∈ single.packets [remainder], x.md.startOfBurst = false := by decide +kernel
  obtain ⟨-, hanew, -⟩ := rest_after_late [0] 0 .sc16 4 100 [] [remainder] overdue _ hbounds hlate
    (by decide +kernel) hstart (by decide +kernel)
  exact ⟨hbounds, hstart, hanew [] remainder _ (List.prefix_refl _) (by decide +kernel)
    (by decide +kernel)⟩

/-- The rest of a burst that begins late is sent, and acknowledged. -/
theorem rest_sent_after_late :
    single.answers [overdue, remainder] = [.sent (.ok 0), .sent (.ok 10)] ∧
      (single.run [overdue, remainder]).events =
        onEach 1 .timeError ⟨0, 0⟩ ++ onEach 1 .burstAck ⟨3, 1 / 2⟩ ∧
      ¬ single.RestDropped [overdue] [remainder] := by
  refine ⟨by decide +kernel, by decide +kernel, fun h => ?_⟩
  obtain ⟨hanswer, -⟩ := h [] remainder ⟨10, ⟨false, ⟨0, 0⟩, false, true⟩, ⟨1, 0⟩⟩
    (List.prefix_refl _) (by decide +kernel)
  exact absurd hanswer (by decide +kernel)

end Sender

end SoftRadio
