import SoftRadio.Proofs.Device.Office
import SoftRadio.Proofs.Exact
import SoftRadio.Proofs.Stream.Round

/-!
# A stream has one mailbox

The channels of a stream have a mailbox each, and other streams share them.  Yet a stream behaves
as if it had a single mailbox of its own, which holds the last command issued on any of its
channels, until the stream looks.

* `Listening` is a radio with one of its streams, and `SingleBox` the same with a single mailbox
  in place of all that the stream looks at.
* `after_office`: what a call or an issue on a stream does to the mailboxes.
* `Simulates.step`, `Simulates.run`: whatever happens, both report the same.
* `run_eq_singleBox`: the same from the opening of the stream on, with what every look takes.
-/

namespace SoftRadio

variable {α : Type} [Scalar α]

/-- What can happen on a radio with a stream: a call, a command on some stream, this one or
another, or a round of a transfer of this stream. -/
inductive Happening (α : Type) where
  | call (looks : Nat → α) (call : Call α)
  | issueOn (other : Receiver α) (command : StreamCommand α) (elapsed : α)
  | round (elapsed : α) (wanted : Nat) (onePacket : Bool) (buffers : List (List UInt8))

namespace Device

/-- The radio after something has happened.  What fails changes nothing. -/
def after (d : Device α) : Happening α → Device α
  | .call looks call =>
    match d.perform looks call with
    | .ok (_, d) => d
    | .error _ => d
  | .issueOn other command elapsed =>
    match d.issueOn other command elapsed with
    | .ok d => d
    | .error _ => d
  | .round .. => d

/-- The command that is issued, if one is. -/
def posting (d : Device α) : Happening α → Option (Posting α)
  | .call looks (.issue command chan) => (d.postingOn command chan (looks 0)).toOption
  | .issueOn other command elapsed => (d.postingOf other command elapsed).toOption
  | _ => none

/-- The clock of a motherboard. -/
def clockOf (d : Device α) (board : Nat) : Clock α :=
  ((d.boards[board]?).map Board.clock).getD Clock.start

/-- What was changed, if anything. -/
theorem changed_eq_postOn {d : Device α} {changed : Except Fault (Device α)}
    {posted : Except Fault (Posting α)}
    (h : changed = (fun m => { d with office := postOn d.office (some m) }) <$> posted) :
    (match changed with
      | .ok d' => d'
      | .error _ => d) = { d with office := postOn d.office posted.toOption } := by
  subst h
  cases posted <;> rfl

theorem posting_of_ne (d : Device α) (looks : Nat → α) {call : Call α}
    (h : ∀ command chan, call ≠ .issue command chan) : d.posting (.call looks call) = none := by
  cases call with
  | issue command chan => exact absurd rfl (h command chan)
  | _ => rfl

theorem after_issue (d : Device α) (looks : Nat → α) (command : StreamCommand α) (chan : Nat) :
    d.after (.call looks (.issue command chan)) =
      { d with office := postOn d.office (d.posting (.call looks (.issue command chan))) } := by
  have hposting : d.posting (.call looks (.issue command chan)) =
      (d.postingOn command chan (looks 0)).toOption := rfl
  rw [hposting, ← changed_eq_postOn (issue_eq_map_postingOn d command chan (looks 0))]
  show (match settle (d.issue command chan (looks 0)) with
    | .ok (_, d') => d'
    | .error _ => d) = _
  cases d.issue command chan (looks 0) <;> rfl

theorem after_issueOn (d : Device α) (other : Receiver α) (command : StreamCommand α)
    (elapsed : α) : d.after (.issueOn other command elapsed) =
      { d with office := postOn d.office (d.posting (.issueOn other command elapsed)) } :=
  changed_eq_postOn (issueOn_eq_map_postingOf d other command elapsed)

/-- Commands get into mailboxes by being issued, and by nothing else. -/
theorem after_office (d : Device α) (h : Happening α) :
    SameOffice { d with office := postOn d.office (d.posting h) } (d.after h) := by
  cases h with
  | round elapsed wanted onePacket buffers => exact SameOffice.refl d
  | issueOn other command elapsed =>
    rw [after_issueOn]
    exact SameOffice.refl _
  | call looks call =>
    by_cases hissue : ∃ command chan, call = .issue command chan
    · obtain ⟨command, chan, rfl⟩ := hissue
      rw [after_issue]
      exact SameOffice.refl _
    · have hne : ∀ command chan, call ≠ .issue command chan :=
        fun command chan he => hissue ⟨command, chan, he⟩
      rw [posting_of_ne d looks hne]
      show SameOffice d (match d.perform looks call with
        | .ok (_, d') => d'
        | .error _ => d)
      cases hp : d.perform looks call with
      | error f => exact SameOffice.refl d
      | ok result =>
        rcases perform_cases hp with hsame | ⟨command, chan, he, -⟩
        · exact hsame
        · exact absurd he (hne command chan)

theorem Sized.after {d : Device α} (hd : d.Sized) (h : Happening α) : (d.after h).Sized :=
  (hd.postOn (d.posting h)).of_sameOffice (after_office d h)

end Device

/-! ## Two ways to listen -/

/-- A radio and one of its streams. -/
structure Listening (α : Type) where
  device : Device α
  receiver : Receiver α

namespace Listening

/-- One happening; also what the stream reports of it. -/
def step (l : Listening α) : Happening α → List (Report α) × Listening α
  | .round elapsed wanted onePacket buffers =>
    let q : Round α := ⟨l.device.clockOf l.receiver.board, elapsed, wanted, onePacket, buffers⟩
    let (report, receiver) := l.receiver.round l.device.office q
    ([report], { l with receiver := receiver })
  | h => ([], { l with device := l.device.after h })

def run : List (Happening α) → Listening α → List (Report α) × Listening α
  | [], l => ([], l)
  | h :: hs, l =>
    let first := l.step h
    let rest := run hs first.2
    (first.1 ++ rest.1, rest.2)

/-- What the next look takes. -/
def taken (l : Listening α) : Option (StreamCommand α × Bool) :=
  Receiver.taken l.receiver.run l.receiver.channels l.device.office

end Listening

/-- A radio, one of its streams, and the single mailbox of the stream: the last command for it,
and whether it was late. -/
structure SingleBox (α : Type) where
  device : Device α
  receiver : Receiver α
  mail : Option (StreamCommand α × Bool)

namespace SingleBox

/-- A command gets into the mailbox if it was issued on a channel of the stream, and takes the
place of what is there. -/
def receive (channels : List Nat) (mail : Option (StreamCommand α × Bool)) :
    Option (Device.Posting α) → Option (StreamCommand α × Bool)
  | none => mail
  | some m =>
    if m.channels.any (channels.contains ·) then some (m.command, Mailbox.isLate m.command m.now)
    else mail

/-- One happening; also what the stream reports of it.  A look empties the mailbox. -/
def step (s : SingleBox α) : Happening α → List (Report α) × SingleBox α
  | .round elapsed wanted onePacket buffers =>
    let clock := s.device.clockOf s.receiver.board
    let (report, receiver) := s.receiver.finish ⟨clock, elapsed, wanted, onePacket, buffers⟩
      (Receiver.proceed clock elapsed (Receiver.carryOut s.receiver.run clock elapsed s.mail))
    ([report], { s with receiver := receiver, mail := none })
  | h => ([], { s with
      device := s.device.after h
      mail := receive s.receiver.channels s.mail (s.device.posting h) })

def run : List (Happening α) → SingleBox α → List (Report α) × SingleBox α
  | [], s => ([], s)
  | h :: hs, s =>
    let first := s.step h
    let rest := run hs first.2
    (first.1 ++ rest.1, rest.2)

end SingleBox

/-- The two are in the same state, apart from what the stream has seen. -/
structure Simulates (l : Listening α) (s : SingleBox α) : Prop where
  device : s.device = l.device
  receiver : l.receiver = s.receiver.see l.receiver.run.seen
  mail : l.taken = s.mail
  order : l.receiver.InOrder l.device.office
  sized : l.device.Sized
  late : l.receiver.run.late = false

namespace Simulates

variable {l : Listening α} {s : SingleBox α}

omit [Scalar α] in
theorem channels (h : Simulates l s) : s.receiver.channels = l.receiver.channels := by
  rw [h.receiver]
  rfl

/-- Whatever changes the mailboxes changes the single one accordingly. -/
theorem after (h : Simulates l s) (happening : Happening α) :
    Simulates { l with device := l.device.after happening }
      { s with
        device := s.device.after happening
        mail := SingleBox.receive s.receiver.channels s.mail (s.device.posting happening) } := by
  have hoffice := l.device.after_office happening
  have hpost : (l.device.after happening).office =
      Device.postOn l.device.office (l.device.posting happening) := hoffice.office
  constructor
  case device => exact congrArg (Device.after · happening) h.device
  case receiver => exact h.receiver
  case sized => exact h.sized.after happening
  case late => exact h.late
  case order =>
    show l.receiver.InOrder (l.device.after happening).office
    rw [hpost]
    cases l.device.posting happening with
    | none => exact h.order
    | some m => exact h.order.issueAll m.command m.now m.channels
  case mail =>
    show Receiver.taken l.receiver.run l.receiver.channels (l.device.after happening).office =
      SingleBox.receive s.receiver.channels s.mail (s.device.posting happening)
    rw [hpost, h.channels, h.device, ← h.mail]
    cases l.device.posting happening with
    | none => rfl
    | some m => exact Receiver.taken_issueAll h.order m.command m.now m.channels

/-- A round reports the same, whether the command was looked for or was in the one mailbox. -/
theorem round (h : Simulates l s) (q : Round α) :
    (l.receiver.round l.device.office q).1 =
        (s.receiver.finish q (Receiver.proceed q.clock q.elapsed
          (Receiver.carryOut s.receiver.run q.clock q.elapsed s.mail))).1 ∧
      Simulates { l with receiver := (l.receiver.round l.device.office q).2 }
        { s with
          receiver := (s.receiver.finish q (Receiver.proceed q.clock q.elapsed
            (Receiver.carryOut s.receiver.run q.clock q.elapsed s.mail))).2
          mail := none } := by
  have hrun : l.receiver.run.see (l.device.office.numbers l.receiver.channels) =
      s.receiver.run.see (l.device.office.numbers l.receiver.channels) := by
    rw [h.receiver]
    rfl
  have hmail : Receiver.taken l.receiver.run l.receiver.channels l.device.office = s.mail := h.mail
  have hfinish : ∀ p, l.receiver.finish q p = s.receiver.finish q p := by
    intro p
    rw [h.receiver]
    rfl
  have hround : l.receiver.round l.device.office q =
      ((s.receiver.finish q (Receiver.proceed q.clock q.elapsed
          (Receiver.carryOut s.receiver.run q.clock q.elapsed s.mail))).1,
        (s.receiver.finish q (Receiver.proceed q.clock q.elapsed
          (Receiver.carryOut s.receiver.run q.clock q.elapsed s.mail))).2.see
            (l.device.office.numbers l.receiver.channels)) := by
    unfold Receiver.round
    rw [hfinish, Receiver.pass_eq]
    dsimp only
    rw [hrun, hmail, Receiver.carryOut_see, Receiver.proceed_see, Receiver.finish_see]
  have hseen := Receiver.seen_round l.receiver l.device.office q
  have hchannels := Receiver.channels_round l.receiver l.device.office q
  refine ⟨by rw [hround], ?_⟩
  constructor
  case device => exact h.device
  case sized => exact h.sized
  case late => exact Receiver.late_round h.late l.device.office q
  case order => exact h.order.of_seen hchannels hseen
  case mail =>
    refine Receiver.taken_of_seen ?_
    rw [hchannels]
    exact hseen
  case receiver =>
    dsimp only
    rw [hseen, hround]

theorem step (h : Simulates l s) (happening : Happening α) :
    (l.step happening).1 = (s.step happening).1 ∧
      Simulates (l.step happening).2 (s.step happening).2 := by
  cases happening with
  | call looks call => exact ⟨rfl, h.after (.call looks call)⟩
  | issueOn other command elapsed => exact ⟨rfl, h.after (.issueOn other command elapsed)⟩
  | round elapsed wanted onePacket buffers =>
    have hclock : s.device.clockOf s.receiver.board = l.device.clockOf l.receiver.board := by
      rw [h.device, h.receiver]
      rfl
    obtain ⟨hreport, hsimulates⟩ :=
      h.round ⟨l.device.clockOf l.receiver.board, elapsed, wanted, onePacket, buffers⟩
    unfold Listening.step SingleBox.step
    dsimp only
    rw [hclock]
    exact ⟨congrArg (fun report => [report]) hreport, hsimulates⟩

theorem run (h : Simulates l s) (happenings : List (Happening α)) :
    (Listening.run happenings l).1 = (SingleBox.run happenings s).1 ∧
      Simulates (Listening.run happenings l).2 (SingleBox.run happenings s).2 := by
  induction happenings generalizing l s with
  | nil => exact ⟨rfl, h⟩
  | cons happening happenings ih =>
    obtain ⟨hfirst, hstep⟩ := h.step happening
    obtain ⟨hrest, hend⟩ := ih hstep
    refine ⟨?_, hend⟩
    show (l.step happening).1 ++ _ = (s.step happening).1 ++ _
    rw [hfirst, hrest]

end Simulates

theorem Device.sized_foldl_after {d : Device α} (hd : d.Sized) (happenings : List (Happening α)) :
    (happenings.foldl Device.after d).Sized := by
  induction happenings generalizing d with
  | nil => exact hd
  | cons happening happenings ih => exact ih (hd.after happening)

/-- From its opening on, whatever happened before, a stream behaves as if it had a single mailbox
that starts empty: its rounds report the same, every look takes what is in that mailbox, and it
reports lateness exactly for a command that was late when it was issued. -/
theorem run_eq_singleBox {addr : Address} {g : Geometry α} {d : Device α}
    (hmake : Device.make addr g = .ok d) (before : List (Happening α)) {args : StreamArgs}
    {r : Receiver α} (hopen : (before.foldl Device.after d).openReceiver args = .ok r)
    (happenings : List (Happening α)) :
    let l := Listening.run happenings ⟨before.foldl Device.after d, r⟩
    let s := SingleBox.run happenings ⟨before.foldl Device.after d, r, none⟩
    l.1 = s.1 ∧ l.2.taken = s.2.mail ∧
      ∀ q, (l.2.receiver.round l.2.device.office q).1.look = .ok .late ↔
        ∃ command, s.2.mail = some (command, true) := by
  have hsized := Device.sized_foldl_after (Device.sized_make hmake) before
  obtain ⟨horder, hlate, hseen⟩ := Device.inOrder_openReceiver hsized hopen
  have hstart : Simulates ⟨before.foldl Device.after d, r⟩
      ⟨before.foldl Device.after d, r, none⟩ := by
    constructor
    case device => rfl
    case receiver => rfl
    case mail => exact Receiver.taken_of_seen hseen
    case order => exact horder
    case sized => exact hsized
    case late => exact hlate
  obtain ⟨hreports, hend⟩ := hstart.run happenings
  refine ⟨hreports, hend.mail, fun q => ?_⟩
  rw [Receiver.look_round_eq_late_iff hend.late, ← hend.mail]
  rfl

/-- A radio with three receive channels. -/
def threeReceivers : Geometry ℚ := ⟨1, 3, 1, 1, 1⟩

/-- A command to start at once. -/
def startNow : StreamCommand ℚ := ⟨.startContinuous, 0, true, TimeSpec.zero⟩

/-- A command to start at the first second. -/
def startAtOne : StreamCommand ℚ := ⟨.startContinuous, 0, false, ⟨1, 0⟩⟩

/-- Commands on all channels: one in time, one a second too late, and one in time again. -/
def threeCommands : List (Happening ℚ) :=
  [.call (fun _ => 0) (.issue startNow 0), .call (fun _ => 2) (.issue startAtOne 1),
    .call (fun _ => 2) (.issue startNow 2)]

/-- A stream is opened on two of three channels, one of them twice, on which a command was issued
before.  Of the three commands that follow, the first is superseded and the last goes past the
stream: its next look takes the second one, which is late, and reports it so; then there is
nothing to take. -/
theorem taken_startAtOne : ∃ d r, Device.make Address.empty threeReceivers = .ok d ∧
    (d.after (.call (fun _ => 0) (.issue startNow 1))).openReceiver
      ⟨"fc32", "sc16", Address.empty, [1, 0, 1]⟩ = .ok r ∧
    let d := d.after (.call (fun _ => 0) (.issue startNow 1))
    let l := (Listening.run threeCommands ⟨d, r⟩).2
    l.taken.map (fun m => (m.1.immediate, m.1.time.full, m.2)) = some (false, 1, true) ∧
      (∀ q, (l.receiver.round l.device.office q).1.look = .ok .late) ∧
      (Listening.run (threeCommands ++ [.round 3 1 false []]) ⟨d, r⟩).2.taken = none := by
  have htest : (do
      let d ← Device.make Address.empty threeReceivers
      let d := d.after (.call (fun _ => 0) (.issue startNow 1))
      let r ← d.openReceiver ⟨"fc32", "sc16", Address.empty, [1, 0, 1]⟩
      let s : SingleBox ℚ := (SingleBox.run threeCommands ⟨d, r, none⟩).2
      let s' : SingleBox ℚ :=
        (SingleBox.run (threeCommands ++ [Happening.round 3 1 false []]) ⟨d, r, none⟩).2
      return (s.mail.map fun m : StreamCommand ℚ × Bool => (m.1.immediate, m.1.time.full, m.2),
        s'.mail.isNone)).toOption = some (some (false, 1, true), true) := by
    decide +kernel
  cases hmake : Device.make Address.empty threeReceivers with
  | error f =>
    rw [hmake] at htest
    cases htest
  | ok d =>
    cases hopen : (d.after (.call (fun _ => 0) (.issue startNow 1))).openReceiver
        ⟨"fc32", "sc16", Address.empty, [1, 0, 1]⟩ with
    | error f =>
      simp only [hmake, hopen, bind, Except.bind] at htest
      cases htest
    | ok r =>
      simp only [hmake, hopen, bind, Except.bind] at htest
      obtain ⟨hmail, hnone⟩ := Prod.mk.inj (Option.some.inj htest)
      refine ⟨d, r, rfl, hopen, ?_⟩
      obtain ⟨-, htaken, hlate⟩ := run_eq_singleBox hmake
        [.call (fun _ => 0) (.issue startNow 1)] hopen threeCommands
      obtain ⟨-, hafter, -⟩ := run_eq_singleBox hmake
        [.call (fun _ => 0) (.issue startNow 1)] hopen (threeCommands ++ [.round 3 1 false []])
      refine ⟨(congrArg _ htaken).trans hmail, fun q => (hlate q).2 ?_,
        hafter.trans (Option.isNone_iff_eq_none.1 hnone)⟩
      obtain ⟨m, hm, hfields⟩ := Option.map_eq_some_iff.1 hmail
      exact ⟨m.1, hm.trans (congrArg (fun late => some (m.1, late)) (congrArg (·.2.2) hfields))⟩

end SoftRadio
