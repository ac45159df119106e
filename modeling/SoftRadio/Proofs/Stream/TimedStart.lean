import SoftRadio.Proofs.Stream.Chunking
import SoftRadio.Proofs.Stream.Looks

/-!
# Transfers until a start

A command to start at some time is issued on a stream, and then the caller asks for samples, again
and again, while no further command reaches the channels of the stream.  The arithmetic is exact,
and no number of seconds leaves its word.

* `Attempt.TimedStart`: the results.  As long as the clock reads less than the start, a transfer
  times out and leaves the start to be waited for; the first one that reads the start or more
  delivers, and from there on all is as if the stream had started at that time.
* `Receiver.Pending`: a stream that waits for a start; `Look.of_pending`, `Attempt.on_of_pending`:
  what a look and a transfer make of it.
* `Attempt.transfers_congr`: streams that wait for nothing deliver the same in every world.
* `Stage.Reachable.timedStart`: the results after the command, whatever happened before it, and
  that they are those of the same command to start at once.
-/

namespace SoftRadio

variable {σ τ α : Type}

/-- The same command, to start at once. -/
def StreamCommand.atOnce (command : StreamCommand α) : StreamCommand α :=
  { command with immediate := true }

/-- What is asked for in a transfer. -/
def Attempt.asks (a : Attempt σ α) : List (List UInt8) × Nat × Bool :=
  (a.buffers, a.wanted, a.onePacket)

/-- A transfer has returned the first samples of a burst that starts at some time. -/
structure Received.Opens (x : Received α) (r : Receiver α) (start : TimeSpec α) (n : Nat) :
    Prop where
  result : ∃ md, x.result = .ok (md, n) ∧ md.error = .none ∧ md.startOfBurst ∧ md.hasTime ∧
    md.time = start
  heard : ∀ j < r.channelCount, x.heard r.format j = Tone.samples r.format j 0 n

namespace Attempt

/-- Wherever its world gets to, the start is not so far away that the seconds until then do not
fit. -/
def Near (a : Attempt σ ℚ) (start : TimeSpec ℚ) : Prop :=
  ∀ s, a.world.Reaches a.state s →
    Word.fits
      (start.full - ((a.world.scene s).clock.reading (a.world.scene s).elapsed).full)

/-- Transfers on a stream after a command to start at some time, with their results.  `pending` is
the stream that waits for the start, and `started` the one that has started then. -/
inductive TimedStart (start : TimeSpec ℚ) (pending started : Receiver ℚ) :
    Receiver ℚ → List (Attempt σ ℚ) → List (Received ℚ) → Prop
  | nil {r : Receiver ℚ} : TimedStart start pending started r [] []
  /-- A transfer that is refused changes nothing. -/
  | refused {r : Receiver ℚ} {a : Attempt σ ℚ} {attempts : List (Attempt σ ℚ)}
      {xs : List (Received ℚ)} {f : Fault}
      (refused : checkBuffers a.buffers.length r.channelCount (a.buffers.map List.length) a.wanted
        r.itemSize = .error f)
      (rest : TimedStart start pending started r attempts xs) :
      TimedStart start pending started r (a :: attempts) (⟨.error f, a.buffers, r⟩ :: xs)
  /-- A transfer that reads the clock before the start only comes to nothing. -/
  | waiting {r : Receiver ℚ} {a : Attempt σ ℚ} {attempts : List (Attempt σ ℚ)}
      {xs : List (Received ℚ)} (accepted : a.Accepted r)
      (before : ∀ u ∈ a.readings r, u.isBefore start)
      (rest : TimedStart start pending started pending attempts xs) :
      TimedStart start pending started r (a :: attempts)
        (⟨.ok ({ (RxMetadata.blank : RxMetadata ℚ) with error := .timeout }, 0), a.buffers,
          pending⟩ :: xs)
  /-- The first transfer that reads it later is the first of the burst. -/
  | starting {r : Receiver ℚ} {a : Attempt σ ℚ} {attempts : List (Attempt σ ℚ)}
      {earlier : List (TimeSpec ℚ)} {u : TimeSpec ℚ} (accepted : a.Accepted r)
      (readings : a.readings r = earlier ++ [u]) (before : ∀ v ∈ earlier, v.isBefore start)
      (reached : u.isBefore start = false) :
      TimedStart start pending started r (a :: attempts) (transfers (a :: attempts) started)

end Attempt

namespace Receiver

/-- A stream with nothing new in its mailboxes that waits for a start. -/
structure Pending (r : Receiver α) (office : PostOffice α) (start : TimeSpec α) : Prop
    extends r.Abreast office where
  active : r.run.mode ≠ .idle
  startAt : r.run.startAt = some start

variable {r : Receiver ℚ} {office : PostOffice ℚ} {start : TimeSpec ℚ}

/-- A look at such a stream goes by the order of the start and of the time that the clock reads. -/
theorem Pending.pass_cases (h : r.Pending office start) (hstart : start.Normal) {scene : Scene ℚ}
    (hscene : ∀ c ∈ r.channels, scene.office.box c = office.box c)
    (hnear : Word.fits (start.full - (scene.clock.reading scene.elapsed).full)) :
    ((scene.clock.reading scene.elapsed).isBefore start = true ∧
      ∃ delay, pass r.run r.channels scene = (.ok (.early delay), r.run)) ∨
    ((scene.clock.reading scene.elapsed).isBefore start = false ∧
      pass r.run r.channels scene = (.ok .ready, { r.run with startAt := none })) := by
  have hnormal : (scene.clock.reading scene.elapsed).Normal :=
    TimeSpec.normal_of_make (scene.clock.now_eq scene.elapsed)
  have hwait := hnormal.isBefore_iff hstart
  rw [h.toAbreast.pass_eq hscene]
  have hnow := scene.clock.now_eq scene.elapsed
  generalize scene.clock.reading scene.elapsed = u at hnear hwait hnow ⊢
  have hdelay : u.secsUntil start = .ok (start.toSecs - u.toSecs) := by
    rw [TimeSpec.secsUntil_eq, if_pos hnear]
    show Except.ok (((start.full - u.full : Int) : ℚ) + (start.frac - u.frac)) =
      .ok ((start.full : ℚ) + start.frac - ((u.full : ℚ) + u.frac))
    congr 1
    push_cast
    ring
  have hwait' : (Scalar.lt (Scalar.ofInt 0) (start.toSecs - u.toSecs) : Bool) =
      u.isBefore start := by
    rw [Bool.eq_iff_iff, hwait]
    show decide (((0 : Int) : ℚ) < start.toSecs - u.toSecs) = true ↔ _
    rw [decide_eq_true_iff, Int.cast_zero, sub_pos]
  have hlooked : (scene.clock.now scene.elapsed >>= fun now => now.secsUntil start) =
      .ok (start.toSecs - u.toSecs) := by
    rw [hnow]
    exact hdelay
  cases hbefore : u.isBefore start with
  | true =>
    refine Or.inl ⟨rfl, start.toSecs - u.toSecs, ?_⟩
    simp [proceed, h.late, h.active, h.startAt, hlooked, hwait', hbefore]
  | false =>
    refine Or.inr ⟨rfl, ?_⟩
    simp [proceed, h.late, h.active, h.startAt, hlooked, hwait', hbefore]

/-- Without the start, there is nothing to wait for. -/
theorem Pending.settled (h : r.Pending office start) : (r.awaiting none).Settled office :=
  ⟨h.seen, h.late, Or.inr rfl⟩

end Receiver

section Exact

variable {r : Receiver ℚ} {office : PostOffice ℚ} {start : TimeSpec ℚ}

/-- A look at a stream that waits for a start leaves it as it is, or finds the start reached. -/
theorem Look.of_pending (h : r.Pending office start) (hstart : start.Normal) {a : Attempt σ ℚ}
    (hquiet : a.Quiet r.channels office) (hnear : a.Near start) {l : Look σ ℚ}
    (hreaches : a.world.Reaches a.state l.state) (hl : l.receiver = r) :
    ((l.reading a.world).isBefore start = true ∧ l.verdict a.world = .ok .timeout ∧
      l.after a.world = r) ∨
    ((l.reading a.world).isBefore start = false ∧ l.verdict a.world = .ok .ready ∧
      l.after a.world = r.awaiting none) := by
  obtain ⟨s, r'⟩ := l
  obtain rfl : r' = r := hl
  have hpassed : (⟨s, r'⟩ : Look σ ℚ).passed a.world =
      Receiver.pass r'.run r'.channels (a.world.scene s) := rfl
  unfold Look.verdict Look.after
  rw [hpassed]
  rcases h.pass_cases hstart (hquiet s hreaches) (hnear s hreaches) with
    ⟨hbefore, delay, hpass⟩ | ⟨hbefore, hpass⟩
  · rw [hpass]
    exact Or.inl ⟨hbefore, rfl, rfl⟩
  · rw [hpass]
    exact Or.inr ⟨hbefore, rfl, rfl⟩

namespace Attempt

open Receiver

/-- A transfer on a stream that waits for a start comes to nothing and leaves the stream waiting,
or its last look, and only that, finds the start reached. -/
theorem on_of_pending (h : r.Pending office start) (hstart : start.Normal) {a : Attempt σ ℚ}
    (haccepted : a.Accepted r) (hquiet : a.Quiet r.channels office) (hnear : a.Near start) :
    ((∀ u ∈ a.readings r, u.isBefore start) ∧
      a.on r = ⟨.ok ({ (RxMetadata.blank : RxMetadata ℚ) with error := .timeout }, 0), a.buffers,
        r⟩) ∨
    (∃ earlier u, a.readings r = earlier ++ [u] ∧ (∀ v ∈ earlier, v.isBefore start) ∧
      u.isBefore start = false ∧ a.on r = a.on (r.awaiting none)) := by
  obtain ⟨before, last, hlooks, hbefore, hon⟩ := on_eq_conclude haccepted
  have hall : ∀ l ∈ a.looks r, a.world.Reaches a.state l.state ∧ l.receiver = r := by
    refine Receiver.forall_looks
      (P := fun l => a.world.Reaches a.state l.state ∧ l.receiver = r) ?_ ⟨.here, rfl⟩ _
    rintro l l' ⟨hreaches, hl⟩ hnext
    obtain ⟨⟨target, hstate⟩, hreceiver, hverdict⟩ := Look.next?_eq_some hnext
    refine ⟨by rw [hstate]; exact hreaches.sleep target, ?_⟩
    rcases Look.of_pending h hstart hquiet hnear hreaches hl with ⟨-, -, hafter⟩ | ⟨-, hready, -⟩
    · rw [hreceiver, hafter]
    · rw [hready] at hverdict
      cases hverdict
  have hreadings : a.readings r =
      before.map (Look.reading a.world) ++ [last.reading a.world] := by
    unfold readings
    rw [hlooks, List.map_append]
    rfl
  -- a look that is followed by another one has read the clock before the start
  have hearlier : ∀ v ∈ before.map (Look.reading a.world), v.isBefore start := by
    intro v hv
    obtain ⟨l, hl, rfl⟩ := List.mem_map.1 hv
    obtain ⟨l', hnext⟩ := Option.isSome_iff_exists.1 (hbefore l hl)
    obtain ⟨-, -, hverdict⟩ := Look.next?_eq_some hnext
    obtain ⟨hreaches, hreceiver⟩ := hall l (by rw [hlooks]; exact List.mem_append_left _ hl)
    rcases Look.of_pending h hstart hquiet hnear hreaches hreceiver with ⟨hv, -⟩ | ⟨-, hready, -⟩
    · exact hv
    · rw [hready] at hverdict
      cases hverdict
  obtain ⟨hreaches, hreceiver⟩ := hall last (by simp [hlooks])
  rcases Look.of_pending h hstart hquiet hnear hreaches hreceiver with
    ⟨hlast, hverdict, hafter⟩ | ⟨hlast, hverdict, hafter⟩
  · refine Or.inl ⟨?_, ?_⟩
    · rw [hreadings]
      intro u hu
      rcases List.mem_append.1 hu with hu | hu
      · exact hearlier u hu
      · rw [List.mem_singleton.1 hu]
        exact hlast
    · rw [hon, hverdict, hafter]
      rfl
  · refine Or.inr ⟨_, _, hreadings, hearlier, hlast, ?_⟩
    rw [hon, hverdict, hafter, on_of_settled h.settled haccepted hquiet,
      answer_of_ne_idle (r := r.awaiting none) h.active]
    rfl

/-- All transfers on a stream that waits for a start, or that is served like one. -/
theorem timedStart_of_pending {pending : Receiver ℚ} (h : pending.Pending office start)
    (hstart : start.Normal) {attempts : List (Attempt σ ℚ)}
    (hquiet : ∀ a ∈ attempts, a.Quiet pending.channels office ∧ a.Near start) {r : Receiver ℚ}
    (hpending : pending = { r with run := pending.run })
    (hserved : ∀ a ∈ attempts, a.Accepted r →
      a.on r = a.on pending ∧ a.readings r = a.readings pending) :
    TimedStart start pending (pending.awaiting none) r attempts (transfers attempts r) := by
  induction attempts generalizing r with
  | nil => exact .nil
  | cons a attempts ih =>
    obtain ⟨hquieta, hnear⟩ := hquiet a List.mem_cons_self
    have hquiet' : ∀ b ∈ attempts, b.Quiet pending.channels office ∧ b.Near start :=
      fun b hb => hquiet b (List.mem_cons_of_mem _ hb)
    show TimedStart start pending _ r (a :: attempts)
      (a.on r :: transfers attempts (a.on r).receiver)
    rcases a.refused_or_accepted r with ⟨f, hcheck, hon⟩ | haccepted
    · rw [hon]
      exact .refused hcheck
        (ih hquiet' hpending fun b hb => hserved b (List.mem_cons_of_mem _ hb))
    · have haccepted' : a.Accepted pending := by
        rw [hpending]
        exact haccepted
      obtain ⟨hon, hreadings⟩ := hserved a List.mem_cons_self haccepted
      rcases on_of_pending h hstart haccepted' hquieta hnear with
        ⟨hbefore, hwaits⟩ | ⟨earlier, u, hu, hearlier, hreached, hstarts⟩
      · rw [hon, hwaits]
        rw [← hreadings] at hbefore
        exact .waiting haccepted hbefore (ih hquiet' rfl fun _ _ _ => ⟨rfl, rfl⟩)
      · rw [hon, hstarts]
        rw [← hreadings] at hu
        exact .starting haccepted hu hearlier hreached

/-- A stream with a command to start at some time in its mailboxes is served as the one that waits
for that start, which it becomes at the first look. -/
theorem timedStart_of_taken {command : StreamCommand ℚ}
    (htaken : taken r.run r.channels office = some (command, false)) (hlate : r.run.late = false)
    (hmode : command.mode ≠ .stopContinuous) (htimed : command.immediate = false)
    (hnormal : command.time.Normal) {attempts : List (Attempt σ ℚ)}
    (hquiet : ∀ a ∈ attempts, a.Quiet r.channels office ∧ a.Near command.time) :
    let started := r.started command command.time office
    TimedStart command.time (started.awaiting (some command.time)) started r attempts
      (transfers attempts r) := by
  intro started
  have hrun := r.run_started hmode command.time office
  have hactive : started.run.mode ≠ .idle := by
    rw [hrun]
    exact modeOf_ne_idle hmode
  have hpending : (started.awaiting (some command.time)).Pending office command.time :=
    ⟨(settled_started hlate command command.time office).abreast.awaiting _, hactive, rfl⟩
  have hnone : (started.awaiting (some command.time)).awaiting none = started :=
    awaiting_of_startAt (by rw [hrun])
  have hprimed : ∀ scene : Scene ℚ, r.primed command (command.startIn scene) office =
      started.awaiting (some command.time) := by
    intro scene
    unfold primed StreamCommand.startIn
    rw [htimed]
    rfl
  have hserved : ∀ a ∈ attempts, a.Accepted r →
      a.on r = a.on (started.awaiting (some command.time)) ∧
        a.readings r = a.readings (started.awaiting (some command.time)) := by
    intro a ha haccepted
    have hpass := pass_eq_pass_primed htaken hlate hmode (hquiet a ha).1.first
    rw [hprimed] at hpass
    exact ⟨on_congr haccepted rfl hpass, readings_congr rfl hpass⟩
  have hall := timedStart_of_pending hpending hnormal hquiet (r := r) rfl hserved
  rw [hnone] at hall
  exact hall

/-- What a stream that has just started delivers first. -/
theorem opens_on_started {command : StreamCommand ℚ} (hlate : r.run.late = false)
    (hmode : command.mode ≠ .stopContinuous) (hstart : start.Normal) {a : Attempt σ ℚ}
    (haccepted : a.Accepted r) (hquiet : a.Quiet r.channels office) :
    let started := r.started command start office
    (a.on started).Opens r start (started.portion a.wanted a.onePacket) := by
  intro started
  have hrun := r.run_started hmode start office
  have hactive : started.run.mode ≠ .idle := by
    rw [hrun]
    exact modeOf_ne_idle hmode
  have hfirst : started.run.firstPacket = true := by rw [hrun]
  have hproduced : started.run.produced = 0 := by rw [hrun]
  have htime : started.run.streamStart.addSecs
      (Scalar.ofInt started.run.produced / started.rate) = .ok start := by
    have hzero : (Scalar.ofInt ((0 : Nat) : Int) / started.rate : ℚ) = 0 := by
      show (((0 : Nat) : Int) : ℚ) / started.rate = 0
      simp
    rw [hrun, hzero]
    exact hstart.addSecs_zero
  have hresult : ∃ md, (a.answer started).result =
      .ok (md, started.portion a.wanted a.onePacket) ∧ md.error = .none ∧ md.startOfBurst ∧
        md.hasTime ∧ md.time = start := by
    rw [answer_of_ne_idle hactive]
    unfold deliver
    rw [htime]
    exact ⟨_, rfl, rfl, hfirst, rfl, rfl⟩
  have hcount : (a.answer started).count = started.portion a.wanted a.onePacket := by
    obtain ⟨md, hx, -⟩ := hresult
    simp [Received.count, hx]
  rw [on_of_settled (settled_started hlate command start office) haccepted hquiet]
  refine ⟨hresult, fun j hj => ?_⟩
  rw [← hcount]
  exact heard_answer (r := started) haccepted (Or.inr hproduced) hj

end Attempt

end Exact

/-! ## The same command, to start at once -/

section Congr

variable [Scalar α]

namespace PostOffice

/-- The numbers that mailboxes get do not depend on what is issued. -/
theorem numbers_issueAll_congr {p p' : PostOffice α}
    (hboxes : p.boxes.map Mailbox.number = p'.boxes.map Mailbox.number) (hnext : p.next = p'.next)
    (command command' : StreamCommand α) (now : TimeSpec α) (channels numbered : List Nat) :
    (p.issueAll command now channels).numbers numbered =
      (p'.issueAll command' now channels).numbers numbered := by
  induction channels generalizing p p' with
  | nil =>
    have hnumber : ∀ (q : PostOffice α) (c : Nat),
        (q.box c).number = ((q.boxes.map Mailbox.number)[c]?).getD 0 := by
      intro q c
      unfold box
      rw [List.getElem?_map]
      cases q.boxes[c]? <;> rfl
    refine List.map_congr_left fun c _ => ?_
    rw [issueAll, issueAll, List.foldl_nil, List.foldl_nil, hnumber, hnumber, hboxes]
  | cons c channels ih =>
    show ((p.issue command now c).issueAll command now channels).numbers numbered =
      ((p'.issue command' now c).issueAll command' now channels).numbers numbered
    refine ih ?_ ?_
    · simp [issue, Mailbox.holding, List.map_set, hboxes, hnext]
    · simp [issue, hnext]

end PostOffice

namespace Attempt

open Receiver

variable {r : Receiver α} {office office' : PostOffice α}

/-- A stream that waits for nothing delivers the same in every world. -/
theorem on_congr_of_settled (h : r.Settled office) (h' : r.Settled office') {a : Attempt σ α}
    {b : Attempt τ α} (hasks : a.asks = b.asks) (hquiet : a.Quiet r.channels office)
    (hquiet' : b.Quiet r.channels office') : a.on r = b.on r := by
  obtain ⟨hbuffers, hwanted, hone⟩ : a.buffers = b.buffers ∧ a.wanted = b.wanted ∧
      a.onePacket = b.onePacket := by
    simpa [asks] using hasks
  rcases a.refused_or_accepted r with ⟨f, hcheck, hon⟩ | haccepted
  · rw [hbuffers, hwanted] at hcheck
    rw [hon, on_of_refused hcheck, hbuffers]
  · have haccepted' : b.Accepted r := by
      unfold Accepted
      rw [← hbuffers, ← hwanted]
      exact haccepted
    rw [on_of_settled h haccepted hquiet, on_of_settled h' haccepted' hquiet']
    unfold answer
    rw [hbuffers, hwanted, hone]

theorem settled_on (h : r.Settled office) {a : Attempt σ α} (hquiet : a.Quiet r.channels office) :
    (a.on r).receiver = { r with run := (a.on r).receiver.run } ∧
      (a.on r).receiver.Settled office := by
  rcases a.refused_or_accepted r with ⟨f, -, hon⟩ | haccepted
  · rw [hon]
    exact ⟨rfl, h⟩
  · rw [on_of_settled h haccepted hquiet]
    exact ⟨receiver_answer a r, settled_answer a h⟩

theorem transfers_congr (h : r.Settled office) (h' : r.Settled office')
    {attempts : List (Attempt σ α)} {others : List (Attempt τ α)}
    (hasks : attempts.map asks = others.map asks)
    (hquiet : ∀ a ∈ attempts, a.Quiet r.channels office)
    (hquiet' : ∀ b ∈ others, b.Quiet r.channels office') :
    transfers attempts r = transfers others r := by
  induction attempts generalizing r others with
  | nil =>
    obtain rfl : others = [] := by simpa using hasks.symm
    rfl
  | cons a attempts ih =>
    obtain ⟨b, others, rfl⟩ : ∃ b rest, others = b :: rest := by
      cases others with
      | nil => simp at hasks
      | cons b rest => exact ⟨b, rest, rfl⟩
    obtain ⟨ha, hrest⟩ : a.asks = b.asks ∧ attempts.map asks = others.map asks := by
      simpa using hasks
    have hsame := on_congr_of_settled h h' ha (hquiet a List.mem_cons_self)
      (hquiet' b List.mem_cons_self)
    obtain ⟨hreceiver, hsettled⟩ := settled_on h (hquiet a List.mem_cons_self)
    obtain ⟨-, hsettled'⟩ := settled_on h' (hquiet' b List.mem_cons_self)
    have hchannels : (a.on r).receiver.channels = r.channels := by rw [hreceiver]
    show a.on r :: transfers attempts (a.on r).receiver =
      b.on r :: transfers others (b.on r).receiver
    rw [← hsame] at hsettled' ⊢
    congr 1
    refine ih hsettled hsettled' hrest ?_ ?_
    · rw [hchannels]
      exact fun c hc => hquiet c (List.mem_cons_of_mem _ hc)
    · rw [hchannels]
      exact fun c hc => hquiet' c (List.mem_cons_of_mem _ hc)

/-- A command to start that is carried out at once, at some time, leads to what follows the start at
that time. -/
theorem transfers_of_atOnce {command : StreamCommand α} {start : TimeSpec α}
    (hdue : r.Due office' command.atOnce)
    (hnumbers : office'.numbers r.channels = office.numbers r.channels)
    {rest : List (Attempt σ α)} {others : List (Attempt τ α)}
    (hasks : rest.map asks = others.map asks)
    (hquiet : ∀ a ∈ rest, a.Quiet r.channels office)
    (hquiet' : ∀ b ∈ others, b.Quiet r.channels office')
    (hfirst : ∀ b ∈ others.head?, b.Accepted r ∧ b.now = .ok start) :
    transfers others r = transfers rest (r.started command start office) := by
  have hsame : r.started command.atOnce start office' = r.started command start office := by
    unfold Receiver.started
    rw [hnumbers]
    rfl
  have hsettled := settled_started hdue.late command start office
  have hsettled' := settled_started hdue.late command.atOnce start office'
  rw [hsame] at hsettled'
  have hcongr := transfers_congr hsettled hsettled' hasks hquiet hquiet'
  rw [hcongr]
  cases others with
  | nil => rfl
  | cons b others =>
    obtain ⟨haccepted, hnow⟩ := hfirst b rfl
    have hquietb := hquiet' b List.mem_cons_self
    have hon : b.on r = b.on (r.started command start office) := by
      rw [on_of_due hdue haccepted hquietb hnow, hsame,
        on_of_settled hsettled' haccepted hquietb]
    show b.on r :: transfers others (b.on r).receiver = _
    rw [hon]
    rfl

end Attempt

end Congr

/-! ## After any history -/

namespace Stage

open Attempt Receiver

variable {s : Stage ℚ}

/-- What follows a command to start at some time that is not late when it is issued, whatever
happened before it, as long as no further command reaches the channels of the stream.  The start
is neither early nor lost (`TimedStart`); the first transfer after it has the first samples, and
tells the start of the burst and its time; and all that follow it are those of the same command,
carried out at once at that time. -/
theorem Reachable.timedStart (h : s.Reachable) {command : StreamCommand ℚ}
    (hmode : command.mode ≠ .stopContinuous) (htimed : command.immediate = false)
    (hnormal : command.time.Normal) {now : TimeSpec ℚ}
    (hlate : Mailbox.isLate command now = false) {posted : List Nat}
    (hposted : ∃ c ∈ posted, c ∈ s.receiver.channels) {attempts : List (Attempt σ ℚ)}
    (hquiet : ∀ a ∈ attempts,
      a.Quiet s.receiver.channels (s.office.issueAll command now posted) ∧
        a.Near command.time) :
    let office := s.office.issueAll command now posted
    let started := s.receiver.started command command.time office
    TimedStart command.time (started.awaiting (some command.time)) started s.receiver attempts
      (transfers attempts s.receiver) ∧
    (∀ a : Attempt σ ℚ, a.Accepted s.receiver → a.Quiet s.receiver.channels office →
      (a.on started).Opens s.receiver command.time (started.portion a.wanted a.onePacket)) ∧
    ∀ (rest : List (Attempt σ ℚ)) (others : List (Attempt τ ℚ)), rest.map asks = others.map asks →
      (∀ a ∈ rest, a.Quiet s.receiver.channels office) →
      (∀ b ∈ others,
        b.Quiet s.receiver.channels (s.office.issueAll command.atOnce now posted)) →
      (∀ b ∈ others.head?, b.Accepted s.receiver ∧ b.now = .ok command.time) →
      transfers others s.receiver = transfers rest started := by
  intro office started
  have htaken := h.taken_issueAll command now hposted
  rw [hlate] at htaken
  refine ⟨timedStart_of_taken htaken h.late hmode htimed hnormal hquiet,
    fun a haccepted hquieta => opens_on_started h.late hmode hnormal haccepted hquieta, ?_⟩
  intro rest others hasks hrest hothers hfirst
  have himmediate : command.atOnce.immediate := rfl
  have hdue := h.due_issueAll himmediate now hposted
  have hnumbers := PostOffice.numbers_issueAll_congr (p := s.office) rfl rfl command.atOnce
    command now posted s.receiver.channels
  exact transfers_of_atOnce hdue hnumbers hasks hrest hothers hfirst

/-! ## A clock that ticks -/

/-- A command for five samples from the second second on. -/
def fiveLater : StreamCommand ℚ := { five with immediate := false, time := ⟨2, 0⟩ }

/-- A transfer of three samples in a world where nothing happens after five samples have been asked
for but that time passes. -/
def ticking (elapsed timeout : ℚ) : Attempt ℚ ℚ where
  world :=
    ⟨fun now => ⟨now, Clock.start, threes.office.issueAll fiveLater TimeSpec.zero [0]⟩,
      fun target now => max now target⟩
  state := elapsed
  further := 3
  buffers := [List.replicate 6 0]
  wanted := 3
  timeout := timeout
  onePacket := false

theorem quiet_ticking (elapsed timeout : ℚ) : (ticking elapsed timeout).Quiet
    threes.receiver.channels (threes.office.issueAll fiveLater TimeSpec.zero [0]) :=
  fun _ _ _ _ => rfl

theorem near_ticking {elapsed : ℚ} (h : 0 ≤ elapsed) (timeout : ℚ) :
    (ticking elapsed timeout).Near fiveLater.time := by
  intro now hreaches
  have hpositive : 0 ≤ now := by
    induction hreaches with
    | here => exact h
    | sleep target _ ih => exact le_max_of_le_left ih
  have hfull : ((Clock.start : Clock ℚ).reading now).full = Word.clamp ⌊now⌋ := by
    show Scalar.toInt (Scalar.floor (now + ((0 : Int) : ℚ))) = _
    rw [Int.cast_zero, add_zero, Scalar.toInt_floor]
  have hfloor : 0 ≤ ⌊now⌋ := Int.floor_nonneg.2 hpositive
  show Word.fits (2 - ((Clock.start : Clock ℚ).reading now).full)
  rw [hfull]
  unfold Word.fits Word.clamp Word.least Word.greatest
  simp only [Bool.and_eq_true, decide_eq_true_eq]
  omega

/-- Three samples are asked for before the second second, in vain, and then up to it. -/
theorem timedStart_ticking :
    let attempts := [ticking 0 1, ticking 1 5]
    let started := threes.receiver.started fiveLater fiveLater.time
      (threes.office.issueAll fiveLater TimeSpec.zero [0])
    TimedStart fiveLater.time (started.awaiting (some fiveLater.time)) started threes.receiver
        attempts (transfers attempts threes.receiver) ∧
      (transfers attempts threes.receiver).map Received.count = [0, 3] := by
  intro attempts started
  have hquiet : ∀ a ∈ attempts, a.Quiet threes.receiver.channels
      (threes.office.issueAll fiveLater TimeSpec.zero [0]) ∧ a.Near fiveLater.time := by
    intro a ha
    simp only [attempts, List.mem_cons, List.not_mem_nil, or_false] at ha
    rcases ha with rfl | rfl
    · exact ⟨quiet_ticking _ _, near_ticking le_rfl _⟩
    · exact ⟨quiet_ticking _ _, near_ticking zero_le_one _⟩
  have hmode : fiveLater.mode ≠ .stopContinuous := by decide
  have hnormal : fiveLater.time.Normal := ⟨by decide, le_rfl, zero_lt_one⟩
  have hlate : Mailbox.isLate fiveLater TimeSpec.zero = false := by decide +kernel
  have hposted : ∃ c ∈ [0], c ∈ threes.receiver.channels := by decide
  obtain ⟨hstart, -⟩ := (Reachable.opened [] 0 .sc8 1 3 (by decide)).timedStart (τ := Unit) hmode
    rfl hnormal hlate hposted hquiet
  exact ⟨hstart, by decide +kernel⟩

end Stage

end SoftRadio
