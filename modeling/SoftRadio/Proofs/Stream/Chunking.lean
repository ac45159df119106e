import SoftRadio.Proofs.Stream.Attempt

/-!
# What is heard does not depend on the transfers

After a command to start at once, transfers put samples into the buffers of the caller, in pieces
whose sizes the caller chooses.  Put together, the pieces are the signal from its first sample on:
what is heard in a buffer depends on its place, on the format, and on how many samples were
delivered in all.

* `Received.heard`: the bytes that a transfer has put into one of the buffers.
* `Receiver.StandsAt`: how far the signal has been delivered, which every transfer keeps right
  (`Attempt.standsAt_on`).
* `Attempt.heardAll_of_standsAt`: the pieces put together, by induction on the transfers.
* `Attempt.Spares`: what a transfer leaves alone, in any state of its stream.
* `Stage.Reachable.heardAll_congr`: whatever happened before the command, two ways to
  ask for the same number of samples bring the same bytes.
-/

namespace SoftRadio

variable {σ τ α : Type}

/-- The bytes that a transfer has put into one of the buffers. -/
def Received.heard (x : Received α) (format : SampleFormat) (j : Nat) : List UInt8 :=
  ((x.buffers[j]?).getD []).take (x.count * format.itemSize)

/-- The bytes that some transfers have put into the buffers at one place. -/
def Received.heardAll (xs : List (Received α)) (format : SampleFormat) (j : Nat) : List UInt8 :=
  xs.flatMap fun x => x.heard format j

theorem Received.heard_of_count {x : Received α} (h : x.count = 0) (format : SampleFormat)
    (j : Nat) : x.heard format j = [] := by
  simp [heard, h]

/-! ## Buffers -/

/-- Samples over the front of a buffer that has room for them leave it as long as it was. -/
theorem Tone.length_samples_append_drop (format : SampleFormat) (i start : Nat) {count : Nat}
    {buffer : List UInt8} (h : count * format.itemSize ≤ buffer.length) :
    (samples format i start count ++ buffer.drop (count * format.itemSize)).length =
      buffer.length := by
  rw [List.length_append, length_samples, List.length_drop]
  omega

/-- What is in memory is shorter than the greatest word, so that a size beyond all words is too
large for it either way. -/
theorem min_limit_le_iff {n size : Nat} (h : size ≤ Capacity.limit) :
    min n (Word.limit - 1) ≤ size ↔ n ≤ size := by
  unfold Capacity.limit at h
  unfold Word.limit
  omega

/-- Buffers that pass the check have room for all that is asked for. -/
theorem Attempt.Accepted.wanted_le {a : Attempt σ α} {r : Receiver α} (h : a.Accepted r)
    (hmemory : ∀ buffer ∈ a.buffers, buffer.length ≤ Capacity.limit) :
    ∀ buffer ∈ a.buffers, a.wanted * r.itemSize ≤ buffer.length := by
  intro buffer hbuffer
  rw [← min_limit_le_iff (hmemory buffer hbuffer)]
  exact le_of_checkBuffers h buffer.length (List.mem_map_of_mem hbuffer)

namespace Receiver

/-- Every buffer gets its samples, and keeps what lies behind them. -/
theorem getElem?_fill (r : Receiver α) (count : Nat) (buffers : List (List UInt8)) (j : Nat) :
    (r.fill count buffers)[j]? = (buffers[j]?).map fun buffer =>
      Tone.samples r.format j r.run.produced count ++ buffer.drop (count * r.itemSize) := by
  unfold fill
  rw [List.getElem?_map, List.getElem?_zipIdx, Option.map_map, Nat.zero_add]
  rfl

theorem drop_fill (r : Receiver α) (count : Nat) (buffers : List (List UInt8)) (j : Nat) :
    ((r.fill count buffers)[j]?).map (List.drop (count * r.itemSize)) =
      (buffers[j]?).map (List.drop (count * r.itemSize)) := by
  rw [getElem?_fill, Option.map_map]
  congr 1
  funext buffer
  exact List.drop_left' (Tone.length_samples ..)

/-- Buffers that are long enough keep their lengths. -/
theorem lengths_fill (r : Receiver α) {count : Nat} {buffers : List (List UInt8)}
    (h : ∀ buffer ∈ buffers, count * r.itemSize ≤ buffer.length) :
    (r.fill count buffers).map List.length = buffers.map List.length := by
  refine List.ext_getElem? fun j => ?_
  rw [List.getElem?_map, getElem?_fill, List.getElem?_map, Option.map_map]
  cases hj : buffers[j]? with
  | none => rfl
  | some buffer =>
    exact congrArg some (Tone.length_samples_append_drop _ _ _ (h buffer (List.mem_of_getElem? hj)))

theorem portion_le (r : Receiver α) (wanted : Nat) (onePacket : Bool) :
    r.portion wanted onePacket ≤ wanted := by
  unfold portion
  dsimp only
  split <;> split <;> omega

variable [Scalar α]

theorem buffers_deliver (r : Receiver α) (wanted : Nat) (onePacket : Bool)
    (buffers : List (List UInt8)) : (r.deliver wanted onePacket buffers).buffers =
      r.fill (r.portion wanted onePacket) buffers := by
  unfold deliver
  cases r.run.streamStart.addSecs (Scalar.ofInt r.run.produced / r.rate) <;> rfl

/-- A delivery returns as many samples as it has written, and no error. -/
theorem deliver_eq_ok {r : Receiver α} {wanted n : Nat} {onePacket : Bool}
    {buffers : List (List UInt8)} {md : RxMetadata α}
    (h : (r.deliver wanted onePacket buffers).result = .ok (md, n)) :
    n = r.portion wanted onePacket ∧ md.error = .none := by
  unfold deliver at h
  split at h
  · cases h
  · cases h
    exact ⟨rfl, rfl⟩

/-- Waiting changes nothing of a stream but its run. -/
theorem receiver_listen (world : World σ α) (deadline : α) (fuel : Nat) (s : σ) (r : Receiver α) :
    (listen world deadline fuel s r).2.2 =
      { r with run := (listen world deadline fuel s r).2.2.run } := by
  induction fuel generalizing s r with
  | zero => rfl
  | succ fuel ih =>
    unfold listen
    cases hp : pass r.run r.channels (world.scene s) with
    | mk look run =>
      simp only [hp]
      match look with
      | .error f => rfl
      | .ok .late => rfl
      | .ok .ready => rfl
      | .ok .idle =>
        dsimp only
        split
        · exact ih _ { r with run := run }
        · rfl
      | .ok (.early delay) =>
        dsimp only
        split
        · rfl
        · exact ih _ { r with run := run }

/-- How far the signal has been delivered: the next sample is number `m`, be it that a command is
still to start it, or that there is nothing to deliver. -/
inductive StandsAt (r : Receiver α) (office : PostOffice α) : Nat → Prop
  | due {command : StreamCommand α} (h : r.Due office command) : StandsAt r office 0
  | settled {m : Nat} (h : r.Settled office) (hm : r.run.mode = .idle ∨ r.run.produced = m) :
      StandsAt r office m

end Receiver

namespace Attempt

open Receiver

variable [Scalar α] {r : Receiver α} {office : PostOffice α}

/-! ## One transfer -/

/-- A transfer that waits for nothing puts samples into every buffer, from the next one on. -/
theorem heard_answer {a : Attempt σ α} (haccepted : a.Accepted r) {m : Nat}
    (hm : r.run.mode = .idle ∨ r.run.produced = m) {j : Nat} (hj : j < r.channelCount) :
    (a.answer r).heard r.format j = Tone.samples r.format j m (a.answer r).count := by
  by_cases hidle : r.run.mode = .idle
  · have hcount : (a.answer r).count = 0 := by
      rw [answer_of_idle hidle]
      rfl
    rw [Received.heard_of_count hcount, hcount]
    rfl
  · rw [← hm.resolve_left hidle, answer_of_ne_idle hidle]
    rcases deliver_receiver r a.wanted a.onePacket a.buffers with ⟨f, hx, -⟩ | ⟨md, hx, -⟩
    · have hcount : (r.deliver a.wanted a.onePacket a.buffers).count = 0 := by
        simp [Received.count, hx]
      rw [Received.heard_of_count hcount, hcount]
      rfl
    · have hcount : (r.deliver a.wanted a.onePacket a.buffers).count =
          r.portion a.wanted a.onePacket := by
        simp [Received.count, hx]
      have hthere : ∃ buffer, a.buffers[j]? = some buffer := by
        have hlength := length_of_checkBuffers haccepted
        exact ⟨a.buffers[j], List.getElem?_eq_getElem (by omega)⟩
      obtain ⟨buffer, hbuffer⟩ := hthere
      unfold Received.heard
      rw [hcount, buffers_deliver, getElem?_fill, hbuffer]
      exact List.take_left' (Tone.length_samples ..)

/-- Such a transfer moves the stream on by what it returns. -/
theorem standsAt_answer {a : Attempt σ α} {m : Nat} (h : r.Settled office)
    (hm : r.run.mode = .idle ∨ r.run.produced = m) :
    (a.answer r).receiver.StandsAt office (m + (a.answer r).count) := by
  refine .settled (settled_answer a h) ?_
  by_cases hidle : r.run.mode = .idle
  · left
    rw [answer_of_idle hidle]
    exact hidle
  · right
    rw [produced_answer, hm.resolve_left hidle]

/-- What a transfer puts into the buffers is the signal from where the stream stands, and the
stream stands at the end of it. -/
theorem standsAt_on {a : Attempt σ α} {m : Nat} (h : r.StandsAt office m)
    (hquiet : a.Quiet r.channels office) (hclock : ∃ t, a.now = .ok t) :
    (a.on r).receiver.StandsAt office (m + (a.on r).count) ∧
      (a.on r).receiver = { r with run := (a.on r).receiver.run } ∧
      ∀ j < r.channelCount,
        (a.on r).heard r.format j = Tone.samples r.format j m (a.on r).count := by
  rcases a.refused_or_accepted r with ⟨f, -, hon⟩ | haccepted
  · -- nothing happens
    have hcount : (⟨.error f, a.buffers, r⟩ : Received α).count = 0 := rfl
    rw [hon, hcount]
    exact ⟨h, rfl, fun j _ => Received.heard_of_count hcount r.format j⟩
  · cases h with
    | settled h hm =>
      rw [on_of_settled h haccepted hquiet]
      exact ⟨standsAt_answer h hm, receiver_answer a r, fun j hj => heard_answer haccepted hm hj⟩
    | @due command h =>
      obtain ⟨start, hstart⟩ := hclock
      have hsettled := settled_started h.late command start office
      have hm : (r.started command start office).run.mode = .idle ∨
          (r.started command start office).run.produced = 0 := by
        unfold started begun
        dsimp only
        split
        · exact Or.inl rfl
        · exact Or.inr rfl
      rw [on_of_due h haccepted hquiet hstart]
      refine ⟨standsAt_answer hsettled hm, receiver_answer a (r.started command start office),
        fun j hj => heard_answer (r := r.started command start office) haccepted hm hj⟩

/-! ## All that follow -/

theorem heardAll_of_standsAt {attempts : List (Attempt σ α)} {m : Nat} (h : r.StandsAt office m)
    (hquiet : ∀ a ∈ attempts, a.Quiet r.channels office)
    (hclock : ∀ a ∈ attempts, ∃ t, a.now = .ok t) {j : Nat} (hj : j < r.channelCount) :
    Received.heardAll (transfers attempts r) r.format j =
      Tone.samples r.format j m (Received.total (transfers attempts r)) := by
  induction attempts generalizing r m with
  | nil => rfl
  | cons a attempts ih =>
    obtain ⟨hstands, hr, hheard⟩ := standsAt_on h (hquiet a List.mem_cons_self)
      (hclock a List.mem_cons_self)
    have hformat : (a.on r).receiver.format = r.format := by rw [hr]
    have hchannels : (a.on r).receiver.channels = r.channels := by rw [hr]
    have hrest := ih hstands
      (by
        rw [hchannels]
        exact fun b hb => hquiet b (List.mem_cons_of_mem _ hb))
      (fun b hb => hclock b (List.mem_cons_of_mem _ hb))
      (by
        unfold channelCount
        rw [hchannels]
        exact hj)
    rw [hformat] at hrest
    show (a.on r).heard r.format j ++
        Received.heardAll (transfers attempts (a.on r).receiver) r.format j =
      Tone.samples r.format j m
        ((a.on r).count + Received.total (transfers attempts (a.on r).receiver))
    rw [hheard j hj, hrest, ← Tone.samples_add]

/-! ## What a transfer leaves alone -/

/-- The metadata that the caller has lent, after the transfer. -/
def metadata (a : Attempt σ α) (r : Receiver α) (md : RxMetadata α) : RxMetadata α :=
  r.metadataAfter a.world (a.further + 1) a.state a.buffers a.wanted a.timeout a.onePacket md

/-- What a transfer leaves alone of the buffers, of the stream and of the metadata. -/
structure Spares (a : Attempt σ α) (r : Receiver α) (md : RxMetadata α) : Prop where
  /-- What lies behind the samples stays in every buffer. -/
  behind : ∀ m n, (a.on r).result = .ok (m, n) → ∀ j : Nat,
    ((a.on r).buffers[j]?).map (List.drop (n * r.itemSize)) =
      (a.buffers[j]?).map (List.drop (n * r.itemSize))
  /-- No buffer gets longer or shorter. -/
  lengths : (∀ buffer ∈ a.buffers, buffer.length ≤ Capacity.limit) →
    (a.on r).buffers.map List.length = a.buffers.map List.length
  /-- Where nothing was delivered, the buffers are as they were. -/
  undelivered : ∀ m n, (a.on r).result = .ok (m, n) →
    m.error = .timeout ∨ m.error = .lateCommand → (a.on r).buffers = a.buffers
  /-- Where the buffers were refused, so is everything. -/
  refused : ∀ f, checkBuffers a.buffers.length r.channelCount (a.buffers.map List.length) a.wanted
    r.itemSize = .error f → a.on r = ⟨.error f, a.buffers, r⟩ ∧ a.metadata r md = md

/-- A transfer leaves the buffers alone, or it was accepted and delivers samples. -/
theorem on_cases (a : Attempt σ α) (r : Receiver α) :
    ((a.on r).buffers = a.buffers ∧ ∀ m n, (a.on r).result = .ok (m, n) → n = 0) ∨
    (a.Accepted r ∧ ∃ r' : Receiver α, r'.format = r.format ∧
      a.on r = r'.deliver a.wanted a.onePacket a.buffers) := by
  cases hcheck : checkBuffers a.buffers.length r.channelCount (a.buffers.map List.length) a.wanted
      r.itemSize with
  | error f =>
    rw [on_of_refused hcheck]
    exact Or.inl ⟨rfl, fun m n h => by cases h⟩
  | ok =>
    have hlisten := receiver_listen a.world (a.scene.elapsed + boundedWait a.timeout)
      (a.further + 1) a.state r
    unfold on recv
    rw [hcheck]
    dsimp only
    revert hlisten
    match listen a.world (a.scene.elapsed + boundedWait a.timeout) (a.further + 1) a.state r with
    | (.error f, s, r') => exact fun _ => Or.inl ⟨rfl, fun m n h => by cases h⟩
    | (.ok .late, s, r') => exact fun _ => Or.inl ⟨rfl, fun m n h => by cases h; rfl⟩
    | (.ok .timeout, s, r') => exact fun _ => Or.inl ⟨rfl, fun m n h => by cases h; rfl⟩
    | (.ok .ready, s, r') =>
      intro hlisten
      have hrun : r' = { r with run := r'.run } := hlisten
      have hformat : r'.format = r.format := by rw [hrun]
      exact Or.inr ⟨hcheck, r', hformat, rfl⟩

theorem spares (a : Attempt σ α) (r : Receiver α) (md : RxMetadata α) : a.Spares r md := by
  have hrefused : ∀ f, checkBuffers a.buffers.length r.channelCount (a.buffers.map List.length)
      a.wanted r.itemSize = .error f →
      a.on r = ⟨.error f, a.buffers, r⟩ ∧ a.metadata r md = md := by
    intro f hcheck
    refine ⟨on_of_refused hcheck, ?_⟩
    unfold metadata metadataAfter
    rw [hcheck]
  rcases on_cases a r with ⟨hbuffers, hnone⟩ | ⟨haccepted, r', hformat, hdeliver⟩
  · exact {
      behind := fun m n hresult j => by rw [hbuffers]
      lengths := fun _ => by rw [hbuffers]
      undelivered := fun _ _ _ _ => hbuffers
      refused := hrefused }
  · have hsize : r'.itemSize = r.itemSize := congrArg SampleFormat.itemSize hformat
    have hbuffers : (a.on r).buffers = r'.fill (r'.portion a.wanted a.onePacket) a.buffers := by
      rw [hdeliver, buffers_deliver]
    constructor
    case behind =>
      intro m n hresult j
      rw [hdeliver] at hresult
      obtain ⟨rfl, -⟩ := deliver_eq_ok hresult
      rw [hbuffers, ← hsize]
      exact drop_fill r' _ a.buffers j
    case lengths =>
      intro hroom
      rw [hbuffers]
      refine lengths_fill r' fun buffer hbuffer => ?_
      have hlong := haccepted.wanted_le hroom buffer hbuffer
      have hportion := Nat.mul_le_mul_right r.itemSize (r'.portion_le a.wanted a.onePacket)
      rw [hsize]
      omega
    case undelivered =>
      intro m n hresult herror
      rw [hdeliver] at hresult
      obtain ⟨-, hnone⟩ := deliver_eq_ok hresult
      rw [hnone] at herror
      rcases herror with h | h <;> cases h
    case refused => exact hrefused

end Attempt

namespace Stage

open Attempt Receiver

variable [Scalar α] {s : Stage α}

/-- What is heard after a command to start at once, whatever happened before it, is the signal from
its first sample on, however it is cut into transfers: two ways to get the same number of samples
bring the same bytes.  And no transfer, in any state of its stream, touches more than it
delivers. -/
theorem Reachable.heardAll_congr (h : s.Reachable) {command : StreamCommand α}
    (himmediate : command.immediate) (now : TimeSpec α) {posted : List Nat}
    (hposted : ∃ c ∈ posted, c ∈ s.receiver.channels)
    {attempts : List (Attempt σ α)} {attempts' : List (Attempt τ α)}
    (hquiet : ∀ a ∈ attempts,
      a.Quiet s.receiver.channels (s.office.issueAll command now posted) ∧ ∃ t, a.now = .ok t)
    (hquiet' : ∀ a ∈ attempts',
      a.Quiet s.receiver.channels (s.office.issueAll command now posted) ∧ ∃ t, a.now = .ok t) :
    let xs := transfers attempts s.receiver
    let xs' := transfers attempts' s.receiver
    let format := s.receiver.format
    (∀ j < s.receiver.channelCount,
      (Received.total xs = Received.total xs' →
        Received.heardAll xs format j = Received.heardAll xs' format j) ∧
      ∀ m < Received.total xs,
        ((Received.heardAll xs format j).drop (m * format.itemSize)).take format.itemSize =
          Tone.sample format j m) ∧
      ∀ (a : Attempt σ α) (r : Receiver α) (md : RxMetadata α), a.Spares r md := by
  intro xs xs' format
  have hstands := StandsAt.due (h.due_issueAll himmediate now hposted)
  refine ⟨fun j hj => ?_, spares⟩
  have hxs := heardAll_of_standsAt hstands (fun a ha => (hquiet a ha).1)
    (fun a ha => (hquiet a ha).2) hj
  have hxs' := heardAll_of_standsAt hstands (fun a ha => (hquiet' a ha).1)
    (fun a ha => (hquiet' a ha).2) hj
  constructor
  · intro htotal
    rw [hxs, hxs', htotal]
  · intro m hm
    rw [hxs, Tone.sample_of_samples format j 0 hm, Nat.zero_add]

/-- Five samples in a packet and the rest, or in one piece. -/
theorem heardAll_five :
    let attempts := [still 4 true, still 4 false]
    let attempts' := [still 5 false]
    Received.total (transfers attempts threes.receiver) = 5 ∧
      Received.heardAll (transfers attempts threes.receiver) .sc8 0 =
        Received.heardAll (transfers attempts' threes.receiver) .sc8 0 := by
  intro attempts attempts'
  have himmediate : five.immediate := rfl
  have hquiet : ∀ a ∈ attempts, a.Quiet threes.receiver.channels
      (threes.office.issueAll five TimeSpec.zero [0]) ∧ ∃ t, a.now = .ok t := by
    intro a ha
    simp only [attempts, List.mem_cons, List.not_mem_nil, or_false] at ha
    rcases ha with rfl | rfl <;> exact ⟨quiet_still _ _, _, now_still _ _⟩
  have hquiet' : ∀ a ∈ attempts', a.Quiet threes.receiver.channels
      (threes.office.issueAll five TimeSpec.zero [0]) ∧ ∃ t, a.now = .ok t := by
    intro a ha
    simp only [attempts', List.mem_cons, List.not_mem_nil, or_false] at ha
    subst ha
    exact ⟨quiet_still _ _, _, now_still _ _⟩
  have htotals : Received.total (transfers attempts threes.receiver) = 5 ∧
      Received.total (transfers attempts' threes.receiver) = 5 := by
    decide +kernel
  obtain ⟨hheard, -⟩ := (Reachable.opened [] 0 .sc8 1 3 (by decide)).heardAll_congr himmediate
    TimeSpec.zero (by decide) hquiet hquiet'
  exact ⟨htotals.1, (hheard 0 (by decide)).1 (htotals.1.trans htotals.2.symm)⟩

end Stage

end SoftRadio
