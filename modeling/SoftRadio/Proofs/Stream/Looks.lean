import SoftRadio.Proofs.Stream.Attempt
import SoftRadio.Proofs.WholeSeconds

/-!
# The looks of a transfer

A transfer looks at its stream, again and again, until the last look tells what it comes to.
`Receiver.looks` are the looks, each with the stream as it was then, and `Attempt.conclude` is what
a transfer makes of the last.

* `Receiver.listen_eq_last`: the waiting of a transfer ends as its last look says, and every look
  before it goes on to the next.
* `Receiver.forall_looks`: what holds at the first look, and is kept from look to look, holds at
  all of them.
* `Attempt.on_eq_conclude`: a transfer is the conclusion from its last look.
* `Attempt.on_congr`: two streams for which the first look comes to the same are served alike.
* `Attempt.on_of_abreast`: what becomes of a stream with nothing new in its mailboxes.
* `Attempt.on_eq_on_primed`: a stream with a command to start in its mailboxes is served as if it
  had carried out the command before.
-/

namespace SoftRadio

variable {σ α : Type}

/-- One look of a transfer: the state of the world, and the stream as it is then. -/
structure Look (σ α : Type) where
  state : σ
  receiver : Receiver α

section

variable [Scalar α]

namespace Look

variable (world : World σ α) (deadline : α) (l : Look σ α)

/-- What the look comes to, with the run after it. -/
def passed : Except Fault (Pass α) × Run α :=
  Receiver.pass l.receiver.run l.receiver.channels (world.scene l.state)

/-- The stream after the look. -/
def after : Receiver α := { l.receiver with run := (l.passed world).2 }

/-- The next look, if there is to be one before the deadline. -/
def next? : Option (Look σ α) :=
  match (l.passed world).1 with
  | .ok .idle =>
    let s := world.sleep deadline l.state
    if (l.after world).hasNews (world.scene s).office then some ⟨s, l.after world⟩ else none
  | .ok (.early delay) =>
    let wake := (world.scene l.state).elapsed + boundedWait delay
    if Scalar.lt deadline wake then none else some ⟨world.sleep wake l.state, l.after world⟩
  | _ => none

/-- How the waiting ends if there is no other look. -/
def verdict : Except Fault Verdict :=
  match (l.passed world).1 with
  | .error f => .error f
  | .ok .late => .ok .late
  | .ok .ready => .ok .ready
  | .ok .idle => .ok .timeout
  | .ok (.early _) => .ok .timeout

/-- What the clock of the stream reads at the look. -/
def reading : TimeSpec α := (world.scene l.state).clock.reading (world.scene l.state).elapsed

/-- The state of the world if there is no other look. -/
def rest : σ :=
  match (l.passed world).1 with
  | .ok .idle => world.sleep deadline l.state
  | .ok (.early _) => world.sleep deadline l.state
  | _ => l.state

variable {world deadline l}

/-- What comes next depends on what the look comes to, and on the stream after it. -/
theorem next?_congr {r r' : Receiver α} {s : σ} (hr' : r' = { r with run := r'.run })
    (hpass : Receiver.pass r.run r.channels (world.scene s) =
      Receiver.pass r'.run r.channels (world.scene s)) :
    (⟨s, r⟩ : Look σ α).next? world deadline = (⟨s, r'⟩ : Look σ α).next? world deadline := by
  unfold next? after passed
  rw [hr']
  dsimp only
  rw [hpass]

/-- The next look comes after a sleep, and finds the stream as this one has left it. -/
theorem next?_eq_some {l' : Look σ α} (h : l.next? world deadline = some l') :
    (∃ target, l'.state = world.sleep target l.state) ∧ l'.receiver = l.after world ∧
      l.verdict world = .ok .timeout := by
  unfold next? at h
  unfold verdict
  match hp : (l.passed world).1 with
  | .error f => simp [hp] at h
  | .ok .late => simp [hp] at h
  | .ok .ready => simp [hp] at h
  | .ok .idle =>
    simp only [hp] at h
    split at h
    · cases h
      exact ⟨⟨deadline, rfl⟩, rfl, rfl⟩
    · cases h
  | .ok (.early delay) =>
    simp only [hp] at h
    split at h
    · cases h
    · cases h
      exact ⟨⟨_, rfl⟩, rfl, rfl⟩

end Look

namespace Receiver

variable (world : World σ α) (deadline : α)

/-- The looks of a transfer that has time for so many. -/
def looks : Nat → Look σ α → List (Look σ α)
  | 0, _ => []
  | fuel + 1, l =>
    l :: match l.next? world deadline with
      | none => []
      | some l' => looks fuel l'

theorem listen_succ (fuel : Nat) (l : Look σ α) :
    listen world deadline (fuel + 1) l.state l.receiver =
      (l.next? world deadline).elim (l.verdict world, l.rest world deadline, l.after world)
        fun l' => listen world deadline fuel l'.state l'.receiver := by
  have hpassed : pass l.receiver.run l.receiver.channels (world.scene l.state) =
      l.passed world := rfl
  rw [listen, hpassed]
  unfold Look.next? Look.verdict Look.rest Look.after
  cases l.passed world with
  | mk look run =>
    rcases look with f | (_ | _ | delay | _)
    case error => rfl
    case ok.late => rfl
    case ok.ready => rfl
    case ok.idle =>
      dsimp only
      split <;> rfl
    case ok.early =>
      dsimp only
      split <;> rfl

/-- Waiting ends as its last look says, and every look before goes on to the next one. -/
theorem listen_eq_last (fuel : Nat) (l : Look σ α) : ∃ before last,
    looks world deadline (fuel + 1) l = before ++ [last] ∧
      (∀ l' ∈ before, (l'.next? world deadline).isSome) ∧
      (listen world deadline (fuel + 1) l.state l.receiver).1 = last.verdict world ∧
      (listen world deadline (fuel + 1) l.state l.receiver).2.2 = last.after world := by
  induction fuel generalizing l with
  | zero =>
    refine ⟨[], l, ?_, by simp, ?_⟩
    · unfold looks
      cases l.next? world deadline <;> rfl
    · rw [listen_succ]
      cases hnext : l.next? world deadline with
      | none => exact ⟨rfl, rfl⟩
      | some l' =>
        -- there is no time for the next look, which the stream would enter as it is now
        obtain ⟨-, hreceiver, hverdict⟩ := Look.next?_eq_some hnext
        exact ⟨hverdict.symm, hreceiver⟩
  | succ fuel ih =>
    rw [listen_succ, looks]
    cases hnext : l.next? world deadline with
    | none => exact ⟨[], l, rfl, by simp, rfl, rfl⟩
    | some l' =>
      obtain ⟨before, last, hlooks, hbefore, hlast⟩ := ih l'
      refine ⟨l :: before, last, by simp [hlooks], ?_, hlast⟩
      intro l'' hl''
      rcases List.mem_cons.1 hl'' with rfl | hl''
      · simp [hnext]
      · exact hbefore l'' hl''

variable {world deadline}

/-- What is kept from look to look holds at all of them. -/
theorem forall_looks {P : Look σ α → Prop}
    (hnext : ∀ l l', P l → l.next? world deadline = some l' → P l') {l : Look σ α} (h : P l)
    (fuel : Nat) : ∀ l' ∈ looks world deadline fuel l, P l' := by
  induction fuel generalizing l with
  | zero => simp [looks]
  | succ fuel ih =>
    rw [looks]
    intro l' hl'
    rcases List.mem_cons.1 hl' with rfl | hl'
    · exact h
    · cases he : l.next? world deadline with
      | none => simp [he] at hl'
      | some l'' =>
        rw [he] at hl'
        exact ih (hnext l l'' h he) l' hl'

end Receiver

end

namespace Receiver

/-- The same stream with another start to wait for, or none. -/
def awaiting (r : Receiver α) (start : Option (TimeSpec α)) : Receiver α :=
  { r with run := { r.run with startAt := start } }

theorem awaiting_of_startAt {r : Receiver α} {start : Option (TimeSpec α)}
    (h : r.run.startAt = start) : r.awaiting start = r := by
  subst h
  rfl

theorem Abreast.awaiting {r : Receiver α} {office : PostOffice α} (h : r.Abreast office)
    (start : Option (TimeSpec α)) : (r.awaiting start).Abreast office :=
  ⟨h.seen, h.late⟩

variable [Scalar α]

/-- With nothing new in the mailboxes, a look does not find the stream late, and changes of it at
most the start. -/
theorem Abreast.pass_cases {r : Receiver α} {office : PostOffice α} (h : r.Abreast office)
    {scene : Scene α} (hscene : ∀ c ∈ r.channels, scene.office.box c = office.box c) :
    (pass r.run r.channels scene).1 ≠ .ok .late ∧
      ((pass r.run r.channels scene).1 = .ok .ready → r.run.mode ≠ .idle) ∧
      ∃ start, (pass r.run r.channels scene).2 = { r.run with startAt := start } := by
  rw [h.pass_eq hscene]
  rcases proceed_cases (.ok ()) r.run scene.clock scene.elapsed with
    ⟨f, hr, -⟩ | ⟨-, hl, -⟩ | ⟨-, -, -, hp⟩ | ⟨-, -, hm, look, start, hne, hp⟩
  · cases hr
  · rw [h.late] at hl
    cases hl
  · rw [hp]
    exact ⟨by simp, by simp, _, rfl⟩
  · rw [hp]
    exact ⟨hne, fun _ => hm, start, rfl⟩

end Receiver

variable [Scalar α]

/-- The time from which the samples of a command count, if it is carried out in some scene. -/
def StreamCommand.startIn (command : StreamCommand α) (scene : Scene α) : TimeSpec α :=
  if command.immediate then scene.clock.reading scene.elapsed else command.time

namespace Receiver

/-- The stream that has carried out a command to start, at once or later. -/
def primed (r : Receiver α) (command : StreamCommand α) (start : TimeSpec α)
    (office : PostOffice α) : Receiver α :=
  (r.started command start office).awaiting
    (if command.immediate then none else some command.time)

omit [Scalar α] in
theorem run_primed (r : Receiver α) {command : StreamCommand α}
    (hmode : command.mode ≠ .stopContinuous) (start : TimeSpec α) (office : PostOffice α) :
    (r.primed command start office).run =
      { r.run with
        seen := office.numbers r.channels
        mode := modeOf command
        startAt := if command.immediate then none else some command.time
        streamStart := start
        produced := 0
        firstPacket := true } := by
  unfold primed awaiting
  rw [run_started r hmode]

omit [Scalar α] in
theorem abreast_primed {r : Receiver α} (h : r.run.late = false) (command : StreamCommand α)
    (start : TimeSpec α) (office : PostOffice α) :
    (r.primed command start office).Abreast office :=
  (settled_started h command start office).abreast.awaiting _

/-- A look that takes out a command to start goes on from the stream that has carried it out. -/
theorem pass_eq_pass_primed [Scalar.WordSized α] {r : Receiver α} {office : PostOffice α}
    {command : StreamCommand α} (htaken : taken r.run r.channels office = some (command, false))
    (hlate : r.run.late = false) (hmode : command.mode ≠ .stopContinuous) {scene : Scene α}
    (hscene : ∀ c ∈ r.channels, scene.office.box c = office.box c) :
    pass r.run r.channels scene =
      pass (r.primed command (command.startIn scene) office).run r.channels scene := by
  have hprimed : pass (r.primed command (command.startIn scene) office).run r.channels scene =
      proceed scene.clock scene.elapsed
        (.ok (), (r.primed command (command.startIn scene) office).run) :=
    (abreast_primed hlate command (command.startIn scene) office).pass_eq hscene
  have hbegin : begin (r.run.see (office.numbers r.channels)) command scene.clock scene.elapsed =
      (.ok (), (r.primed command (command.startIn scene) office).run) := by
    rw [run_primed r hmode]
    unfold begin StreamCommand.startIn
    cases command.immediate <;> simp [hmode, Clock.now_eq, Run.see]
  rw [hprimed, Receiver.pass_eq, numbers_congr hscene, taken_congr _ hscene, htaken, ← hbegin]
  rfl

end Receiver

namespace Attempt

open Receiver

/-- The elapsed time at which the attempt is given up. -/
def deadline (a : Attempt σ α) : α := a.scene.elapsed + boundedWait a.timeout

/-- The looks of the transfer on a stream. -/
def looks (a : Attempt σ α) (r : Receiver α) : List (Look σ α) :=
  Receiver.looks a.world a.deadline (a.further + 1) ⟨a.state, r⟩

/-- What the clock of a stream reads at the looks of the transfer. -/
def readings (a : Attempt σ α) (r : Receiver α) : List (TimeSpec α) :=
  (a.looks r).map (Look.reading a.world)

/-- What a transfer makes of the end of its waiting. -/
def conclude (a : Attempt σ α) (verdict : Except Fault Verdict) (r : Receiver α) : Received α :=
  match verdict with
  | .error f => ⟨.error f, a.buffers, r⟩
  | .ok .late =>
    ⟨.ok ({ (RxMetadata.blank : RxMetadata α) with error := .lateCommand }, 0), a.buffers, r⟩
  | .ok .timeout =>
    ⟨.ok ({ (RxMetadata.blank : RxMetadata α) with error := .timeout }, 0), a.buffers, r⟩
  | .ok .ready => r.deliver a.wanted a.onePacket a.buffers

theorem on_eq_listen {a : Attempt σ α} {r : Receiver α} (h : a.Accepted r) :
    a.on r = a.conclude (listen a.world a.deadline (a.further + 1) a.state r).1
      (listen a.world a.deadline (a.further + 1) a.state r).2.2 := by
  have hdeadline : (a.world.scene a.state).elapsed + boundedWait a.timeout = a.deadline := rfl
  unfold on recv
  rw [show checkBuffers _ _ _ _ _ = .ok () from h]
  dsimp only
  rw [hdeadline]
  match listen a.world a.deadline (a.further + 1) a.state r with
  | (.error f, s, r') => rfl
  | (.ok .late, s, r') => rfl
  | (.ok .timeout, s, r') => rfl
  | (.ok .ready, s, r') => rfl

theorem on_eq_conclude {a : Attempt σ α} {r : Receiver α} (h : a.Accepted r) : ∃ before last,
    a.looks r = before ++ [last] ∧ (∀ l ∈ before, (l.next? a.world a.deadline).isSome) ∧
      a.on r = a.conclude (last.verdict a.world) (last.after a.world) := by
  obtain ⟨before, last, hlooks, hbefore, hverdict, hafter⟩ :=
    listen_eq_last a.world a.deadline a.further ⟨a.state, r⟩
  refine ⟨before, last, hlooks, hbefore, ?_⟩
  rw [on_eq_listen h, ← hverdict, ← hafter]

/-- Two streams that differ in their runs only, and for which the first look comes to the same,
are served alike. -/
theorem on_congr {a : Attempt σ α} {r r' : Receiver α} (h : a.Accepted r)
    (hr' : r' = { r with run := r'.run })
    (hpass : pass r.run r.channels a.scene = pass r'.run r.channels a.scene) :
    a.on r = a.on r' := by
  have hscene : a.world.scene a.state = a.scene := rfl
  have haccepted : a.Accepted r' := by
    rw [hr']
    exact h
  have hlisten : listen a.world a.deadline (a.further + 1) a.state r =
      listen a.world a.deadline (a.further + 1) a.state r' := by
    rw [hr', Receiver.listen, Receiver.listen, hscene, hpass]
  rw [on_eq_listen h, on_eq_listen haccepted, hlisten]

theorem readings_congr {a : Attempt σ α} {r r' : Receiver α} (hr' : r' = { r with run := r'.run })
    (hpass : pass r.run r.channels a.scene = pass r'.run r.channels a.scene) :
    a.readings r = a.readings r' := by
  unfold readings looks Receiver.looks
  rw [Look.next?_congr hr' hpass]
  rfl

/-- What holds of the stream at the first look, and is kept from look to look, holds at all looks.
They take place in states that the world can come to. -/
theorem forall_looks {a : Attempt σ α} {P : Receiver α → Prop}
    (hpass : ∀ s r, a.world.Reaches a.state s → P r →
      P { r with run := (pass r.run r.channels (a.world.scene s)).2 })
    {r : Receiver α} (h : P r) :
    ∀ l ∈ a.looks r, a.world.Reaches a.state l.state ∧ P l.receiver := by
  refine Receiver.forall_looks (P := fun l => a.world.Reaches a.state l.state ∧ P l.receiver)
    ?_ ⟨.here, h⟩ (a.further + 1)
  rintro l l' ⟨hreaches, hl⟩ hnext
  obtain ⟨⟨target, hstate⟩, hreceiver, -⟩ := Look.next?_eq_some hnext
  constructor
  · rw [hstate]
    exact hreaches.sleep target
  · rw [hreceiver]
    exact hpass l.state l.receiver hreaches hl

/-- A transfer on a stream with nothing new in its mailboxes changes at most the start while it
waits.  Then it leaves the buffers as they are, without a sample, or it delivers. -/
theorem on_of_abreast {a : Attempt σ α} {r : Receiver α} {office : PostOffice α}
    (h : r.Abreast office) (haccepted : a.Accepted r) (hquiet : a.Quiet r.channels office) :
    ∃ start,
      ((∃ f, a.on r = ⟨.error f, a.buffers, r.awaiting start⟩) ∨
        a.on r = ⟨.ok ({ (RxMetadata.blank : RxMetadata α) with error := .timeout }, 0),
          a.buffers, r.awaiting start⟩) ∨
      (r.run.mode ≠ .idle ∧
        a.on r = (r.awaiting start).deliver a.wanted a.onePacket a.buffers) := by
  obtain ⟨before, last, hlooks, -, hon⟩ := on_eq_conclude haccepted
  have hall := forall_looks (a := a) (P := fun r' => ∃ start, r' = r.awaiting start)
    (fun s r' hs hr' => by
      obtain ⟨start, rfl⟩ := hr'
      obtain ⟨-, -, start', hafter⟩ := (h.awaiting start).pass_cases (hquiet s hs)
      exact ⟨start', by rw [hafter]; rfl⟩)
    (r := r) ⟨r.run.startAt, rfl⟩
  obtain ⟨hreaches, start, hreceiver⟩ := hall last (by simp [hlooks])
  obtain ⟨hlate, hready, start', hafter⟩ :=
    (h.awaiting start).pass_cases (hquiet last.state hreaches)
  have hpassed : last.passed a.world = pass (r.awaiting start).run (r.awaiting start).channels
      (a.world.scene last.state) := by
    rw [← hreceiver]
    rfl
  rw [← hpassed] at hlate hready hafter
  have hlast : last.after a.world = r.awaiting start' := by
    unfold Look.after
    rw [hafter, hreceiver]
    rfl
  refine ⟨start', ?_⟩
  rw [hon, hlast]
  unfold Look.verdict
  match hp : (last.passed a.world).1 with
  | .error f => exact Or.inl (Or.inl ⟨f, rfl⟩)
  | .ok .late => exact absurd hp hlate
  | .ok .idle => exact Or.inl (Or.inr rfl)
  | .ok (.early _) => exact Or.inl (Or.inr rfl)
  | .ok .ready => exact Or.inr ⟨hready hp, rfl⟩

theorem on_eq_on_primed [Scalar.WordSized α] {a : Attempt σ α} {r : Receiver α}
    {office : PostOffice α} {command : StreamCommand α}
    (htaken : taken r.run r.channels office = some (command, false))
    (hlate : r.run.late = false) (hmode : command.mode ≠ .stopContinuous)
    (haccepted : a.Accepted r) (hquiet : a.Quiet r.channels office) :
    a.on r = a.on (r.primed command (command.startIn a.scene) office) :=
  on_congr haccepted rfl (pass_eq_pass_primed htaken hlate hmode hquiet.first)

end Attempt

end SoftRadio
