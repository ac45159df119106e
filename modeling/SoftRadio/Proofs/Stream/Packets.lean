import Mathlib.Data.List.Induction
import SoftRadio.Proofs.Exact
import SoftRadio.Stream.Sender

/-!
# Bursts in a history of packets

The packets that were sent on a transmit stream, one after the other, are divided into bursts.  A
burst begins at a packet that says so, and at one that is sent while none is open; it goes on until
a packet ends it, or until one is late.  What is reported of the packets follows from this division
and from nothing else.

* `Packet.openBurst`, `Packet.burst`: the packets of a burst, computed from the history.
* `BurstIs`: some packets are those of one burst.
* `burst_eq_cons_iff`: every packet on time belongs to one burst, and this is the one that is
  computed.
* `Packet.reports`: what is reported of a packet.
-/

namespace SoftRadio

variable {α : Type}

deriving instance DecidableEq for TimeSpec, TxMetadata, AsyncMetadata

/-- A packet whose buffers were accepted, and the device time at which it was sent. -/
structure Packet (α : Type) where
  count : Nat
  md : TxMetadata α
  now : TimeSpec α
  deriving DecidableEq

namespace Packet

/-- The samples of some packets. -/
def total (packets : List (Packet α)) : Nat := (packets.map count).sum

variable [Scalar α]

/-- The time for which the packet is meant has passed. -/
def late (p : Packet α) : Bool := p.md.hasTime && p.md.time.isBefore p.now

/-- When the first sample of the packet leaves. -/
def start (p : Packet α) : TimeSpec α := if p.md.hasTime then p.md.time else p.now

/-- The packets of a burst and then this one, which may begin another. -/
def join (burst : List (Packet α)) (p : Packet α) : List (Packet α) :=
  if p.md.startOfBurst then [p] else burst ++ [p]

/-- The packets of the burst that is open when some packets have been sent. -/
def openBurst (sent : List (Packet α)) : List (Packet α) :=
  sent.foldl (fun burst p => if p.late || p.md.endOfBurst then [] else join burst p) []

/-- The packets of the burst that a packet on time belongs to, up to this one. -/
def burst (sent : List (Packet α)) (p : Packet α) : List (Packet α) := join (openBurst sent) p

/-- When the last sample of a burst has left. -/
def burstEnd (rate : α) : List (Packet α) → Except Fault (TimeSpec α)
  | [] => .ok TimeSpec.zero
  | first :: more => first.start.addSecs (Scalar.ofInt (total (first :: more)) / rate)

/-- A report on each of some channels. -/
def onEach (channels : Nat) (event : AsyncEvent) (time : TimeSpec α) : List (AsyncMetadata α) :=
  (List.range channels).map fun c => ⟨c, true, time, event⟩

/-- What a packet gives to report on a stream of some channels, when others were sent before. -/
def reports (channels : Nat) (rate : α) (sent : List (Packet α)) (p : Packet α) :
    List (AsyncMetadata α) :=
  if p.late then onEach channels .timeError p.md.time
  else if p.md.endOfBurst then
    match burstEnd rate (p.burst sent) with
    | .ok time => onEach channels .burstAck time
    | .error _ => []
  else []

/-- All that packets give to report, when others were sent before. -/
def allReports (channels : Nat) (rate : α) : (sent rest : List (Packet α)) → List (AsyncMetadata α)
  | _, [] => []
  | sent, p :: rest => p.reports channels rate sent ++ allReports channels rate (sent ++ [p]) rest

/-! ## Bursts in a history -/

/-- A burst is open after some packets: the last one was on time and did not end it. -/
def OpenAfter (sent : List (Packet α)) : Prop :=
  ∃ p, sent.getLast? = some p ∧ p.late = false ∧ p.md.endOfBurst = false

/-- The packets `first :: more`, sent after those of `before`, belong to one burst, which the first
of them began. -/
structure BurstIs (before : List (Packet α)) (first : Packet α) (more : List (Packet α)) :
    Prop where
  begins : first.md.startOfBurst = true ∨ ¬ OpenAfter before
  onTime : ∀ p ∈ first :: more, p.late = false
  goesOn : ∀ p ∈ more, p.md.startOfBurst = false
  unended : ∀ p ∈ (first :: more).dropLast, p.md.endOfBurst = false

variable {sent before more : List (Packet α)} {p first : Packet α}

theorem openBurst_concat (sent : List (Packet α)) (p : Packet α) :
    openBurst (sent ++ [p]) = if p.late || p.md.endOfBurst then [] else p.burst sent := by
  unfold openBurst
  rw [List.foldl_append]
  rfl

theorem openAfter_concat_iff :
    OpenAfter (sent ++ [p]) ↔ p.late = false ∧ p.md.endOfBurst = false := by
  unfold OpenAfter
  simp

theorem allReports_append (channels : Nat) (rate : α) (sent xs ys : List (Packet α)) :
    allReports channels rate sent (xs ++ ys) =
      allReports channels rate sent xs ++ allReports channels rate (sent ++ xs) ys := by
  induction xs generalizing sent with
  | nil => simp [allReports]
  | cons p xs ih => simp [allReports, ih]

theorem burst_ne_nil (sent : List (Packet α)) (p : Packet α) : p.burst sent ≠ [] := by
  unfold burst join
  split <;> simp

theorem openBurst_of_not_openAfter (h : ¬ OpenAfter sent) : openBurst sent = [] := by
  obtain rfl | ⟨sent, p, rfl⟩ := List.eq_nil_or_concat sent
  · rfl
  · rw [List.concat_eq_append] at h ⊢
    rw [openAfter_concat_iff, not_and_or] at h
    rw [openBurst_concat, if_pos (by simpa using h)]

/-- A packet on time is a burst so far if it begins one. -/
theorem BurstIs.single (h : p.late = false)
    (hbegins : p.md.startOfBurst = true ∨ ¬ OpenAfter before) : BurstIs before p [] :=
  ⟨hbegins, by simpa using h, by simp, by simp⟩

/-- A packet goes on with a burst that none of the packets before it has ended. -/
theorem burstIs_concat_iff : BurstIs before first (more ++ [p]) ↔
    BurstIs before first more ∧ (∀ q ∈ first :: more, q.md.endOfBurst = false) ∧
      p.late = false ∧ p.md.startOfBurst = false := by
  have hdrop : (first :: (more ++ [p])).dropLast = first :: more := by
    rw [← List.cons_append, List.dropLast_concat]
  constructor
  · intro h
    have hunended := h.unended
    rw [hdrop] at hunended
    refine ⟨?_, hunended, h.onTime p (by simp), h.goesOn p (by simp)⟩
    constructor
    case begins => exact h.begins
    case onTime => exact fun q hq => h.onTime q (List.mem_append_left [p] hq)
    case goesOn => exact fun q hq => h.goesOn q (List.mem_append_left _ hq)
    case unended => exact fun q hq => hunended q (List.dropLast_subset _ hq)
  · rintro ⟨h, hunended, hlate, hstart⟩
    constructor
    case begins => exact h.begins
    case onTime =>
      intro q hq
      rw [← List.cons_append, List.mem_append, List.mem_singleton] at hq
      rcases hq with hq | rfl
      · exact h.onTime q hq
      · exact hlate
    case goesOn =>
      intro q hq
      rw [List.mem_append, List.mem_singleton] at hq
      rcases hq with hq | rfl
      · exact h.goesOn q hq
      · exact hstart
    case unended => rwa [hdrop]

omit [Scalar α] in
/-- The packet that was sent last is the last one of the burst that it belongs to. -/
theorem exists_eq_concat (heq : sent ++ [p] = before ++ first :: more) :
    ∃ init, first :: more = init ++ [p] ∧ sent = before ++ init := by
  obtain ⟨init, last, hinit⟩ :=
    (List.eq_nil_or_concat (first :: more)).resolve_left (List.cons_ne_nil first more)
  rw [List.concat_eq_append] at hinit
  rw [hinit, ← List.append_assoc] at heq
  obtain ⟨hsent, hlast⟩ := List.append_inj' heq rfl
  exact ⟨init, by rw [hinit, List.singleton_inj.1 hlast], hsent⟩

/-- A packet on time belongs to a burst. -/
theorem exists_burstIs (sent : List (Packet α)) (h : p.late = false) :
    ∃ before first more, sent ++ [p] = before ++ first :: more ∧ p.burst sent = first :: more ∧
      BurstIs before first more := by
  induction sent using List.reverseRecOn generalizing p with
  | nil =>
    exact ⟨[], p, [], rfl, by simp [burst, openBurst, join],
      .single h (.inr (by simp [OpenAfter]))⟩
  | append_singleton sent q ih =>
    by_cases hstart : p.md.startOfBurst = true
    · exact ⟨sent ++ [q], p, [], rfl, by simp [burst, join, hstart], .single h (.inl hstart)⟩
    by_cases hopen : OpenAfter (sent ++ [q])
    · -- the packet before this one belongs to the same burst
      obtain ⟨hq, hgoes⟩ := openAfter_concat_iff.1 hopen
      obtain ⟨before, first, more, hsent, hburst, his⟩ := ih hq
      rw [Bool.not_eq_true] at hstart
      refine ⟨before, first, more ++ [p], by simp [hsent], ?_,
        burstIs_concat_iff.2 ⟨his, ?_, h, hstart⟩⟩
      · rw [burst, openBurst_concat, hq, hgoes, hburst, join, hstart]
        rfl
      · obtain ⟨init, hinit, -⟩ := exists_eq_concat hsent
        have hunended := his.unended
        rw [hinit, List.dropLast_concat] at hunended
        intro q' hq'
        rw [hinit, List.mem_append, List.mem_singleton] at hq'
        rcases hq' with hq' | rfl
        · exact hunended q' hq'
        · exact hgoes
    · exact ⟨sent ++ [q], p, [], rfl, by simp [burst, join, openBurst_of_not_openAfter hopen],
        .single h (.inr hopen)⟩

/-- The packets of a burst are found again in the history, however many there are. -/
theorem BurstIs.burst_eq (h : BurstIs before first more)
    (heq : sent ++ [p] = before ++ first :: more) : p.burst sent = first :: more := by
  induction more using List.reverseRecOn generalizing sent p with
  | nil =>
    obtain ⟨rfl, hp⟩ := List.append_inj' heq rfl
    obtain rfl := List.singleton_inj.1 hp
    unfold burst join
    split
    · rfl
    next hstart => rw [openBurst_of_not_openAfter (h.begins.resolve_left hstart), List.nil_append]
  | append_singleton more q ih =>
    -- the packet before the last one belongs to the burst as well, and has not ended it
    obtain ⟨hmore, hunended, -, hstart⟩ := burstIs_concat_iff.1 h
    rw [← List.cons_append, ← List.append_assoc] at heq
    obtain ⟨rfl, hp⟩ := List.append_inj' heq rfl
    obtain rfl := List.singleton_inj.1 hp
    obtain ⟨init, last, hinit⟩ :=
      (List.eq_nil_or_concat (first :: more)).resolve_left (List.cons_ne_nil first more)
    rw [List.concat_eq_append] at hinit
    have hlast : last ∈ first :: more := by simp [hinit]
    have hopen : openBurst (before ++ first :: more) = first :: more := by
      rw [hinit, ← List.append_assoc, openBurst_concat, hmore.onTime last hlast,
        hunended last hlast, ← hinit]
      exact ih hmore (by rw [hinit, List.append_assoc])
    rw [burst, hopen, join, hstart]
    rfl

/-- The burst of a packet on time, as it is computed, is the one that the history has. -/
theorem burst_eq_cons_iff (h : p.late = false) : p.burst sent = first :: more ↔
    ∃ before, sent ++ [p] = before ++ first :: more ∧ BurstIs before first more := by
  constructor
  · intro hburst
    obtain ⟨before, first', more', heq, hburst', his⟩ := exists_burstIs sent h
    obtain ⟨rfl, rfl⟩ := List.cons_eq_cons.1 (hburst'.symm.trans hburst)
    exact ⟨before, heq, his⟩
  · rintro ⟨before, heq, his⟩
    exact his.burst_eq heq

end Packet

end SoftRadio
