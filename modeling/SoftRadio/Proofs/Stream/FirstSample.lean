import SoftRadio.Proofs.Stream.Burst
import SoftRadio.Proofs.Stream.Looks

/-!
# Which transfer starts a burst

After a command to start, at once or later, one of the transfers that follow is said to start the
burst: the first that comes to a delivery.  A delivery may be empty, if no samples were asked for.
Then the start has been told before the first sample is there, and is not told with it.

* `Attempt.StartsOnce`: the results of transfers of which the first delivery starts the burst.
* `Receiver.Underway`: a stream in a burst that is started or is still to be.
* `Received.Advances`: what one transfer comes to.
* `Attempt.on_of_underway`, `Attempt.startsOnce_of_unheard`: one transfer, and all that follow.
* `Stage.Reachable.marksStart_iff`: whatever happened before the command, which transfer starts
  the burst, and when that is the one with the first sample.
* `Stage.marksStart_still`: a burst whose start is told without a sample.
-/

namespace SoftRadio

variable {σ α : Type}

/-- A command to deliver samples: without end, or at least one. -/
def StreamCommand.Starts (command : StreamCommand α) : Prop :=
  command.mode = .startContinuous ∨
    (command.mode = .samplesAndDone ∨ command.mode = .samplesAndMore) ∧ 1 ≤ command.count

theorem StreamCommand.Starts.mode_ne {command : StreamCommand α} (h : command.Starts) :
    command.mode ≠ .stopContinuous := by
  rcases h with h | ⟨h | h, -⟩ <;> simp [h]

/-- Whether a transfer has come to a delivery, be it an empty one. -/
def Received.delivers (x : Received α) : Bool :=
  match x.result with
  | .ok (md, _) => md.error == .none
  | .error _ => false

/-- Whether a transfer is said to start a burst. -/
def Received.marksStart (x : Received α) : Bool :=
  match x.result with
  | .ok (md, _) => md.startOfBurst
  | .error _ => false

namespace Attempt

/-- The results of transfers from a burst that has not started: the first delivery starts it, and
no other transfer does. -/
inductive StartsOnce (frameSize : Nat) : List (Attempt σ α) → List (Received α) → Prop
  | nil : StartsOnce frameSize [] []
  /-- A transfer that delivers nothing. -/
  | waiting {a : Attempt σ α} {x : Received α} {attempts : List (Attempt σ α)}
      {xs : List (Received α)} (delivers : x.delivers = false) (marks : x.marksStart = false)
      (count : x.count = 0) (rest : StartsOnce frameSize attempts xs) :
      StartsOnce frameSize (a :: attempts) (x :: xs)
  /-- The first delivery. -/
  | first {a : Attempt σ α} {x : Received α} {attempts : List (Attempt σ α)}
      {xs : List (Received α)} (delivers : x.delivers = true) (marks : x.marksStart = true)
      (count : 0 < x.count ↔ 0 < a.limit frameSize) (rest : ∀ y ∈ xs, y.marksStart = false)
      (length : attempts.length = xs.length) :
      StartsOnce frameSize (a :: attempts) (x :: xs)

namespace StartsOnce

variable {frameSize : Nat} {attempts : List (Attempt σ α)} {xs : List (Received α)}

theorem length_eq (h : StartsOnce frameSize attempts xs) : attempts.length = xs.length := by
  induction h with
  | nil => rfl
  | waiting _ _ _ _ ih => exact congrArg Nat.succ ih
  | first _ _ _ _ length => exact congrArg Nat.succ length

/-- What starts the burst is the first delivery. -/
theorem marksStart_iff_first (h : StartsOnce frameSize attempts xs) (i : Nat) {x : Received α}
    (hx : xs[i]? = some x) : x.marksStart ↔ xs.findIdx? Received.delivers = some i := by
  induction h generalizing i with
  | nil => simp at hx
  | waiting hdelivers hmarks _ _ ih =>
    rw [List.findIdx?_cons, hdelivers]
    cases i with
    | zero =>
      obtain rfl := Option.some.inj hx
      simp [hmarks]
    | succ i => simp [ih i hx]
  | first hdelivers hmarks _ hrest _ =>
    rw [List.findIdx?_cons, hdelivers]
    cases i with
    | zero =>
      obtain rfl := Option.some.inj hx
      simp [hmarks]
    | succ i => simp [hrest x (List.mem_of_getElem? hx)]

/-- The first delivery has the first sample if it was asked for one. -/
theorem firstSample_iff (h : StartsOnce frameSize attempts xs) (i : Nat) {a : Attempt σ α}
    (ha : attempts[i]? = some a) (hfirst : xs.findIdx? Received.delivers = some i) :
    xs.findIdx? (0 < ·.count) = some i ↔ 0 < a.limit frameSize := by
  induction h generalizing i with
  | nil => simp at ha
  | waiting hdelivers _ hcount _ ih =>
    rw [List.findIdx?_cons, hdelivers] at hfirst
    rw [List.findIdx?_cons, hcount]
    cases i with
    | zero => simp at hfirst
    | succ i => simpa using ih i ha (by simpa using hfirst)
  | first hdelivers _ hcount _ _ =>
    rw [List.findIdx?_cons, hdelivers] at hfirst
    obtain rfl : 0 = i := by simpa using hfirst
    obtain rfl := Option.some.inj ha
    rw [← hcount, List.findIdx?_cons]
    simp

/-- Before the first sample there is a delivery, or it is one. -/
theorem exists_delivery (h : StartsOnce frameSize attempts xs) {i : Nat}
    (hi : xs.findIdx? (0 < ·.count) = some i) :
    ∃ j, xs.findIdx? Received.delivers = some j := by
  induction h generalizing i with
  | nil => simp at hi
  | waiting hdelivers _ hcount _ ih =>
    rw [List.findIdx?_cons, hcount] at hi
    obtain ⟨i', hi', -⟩ := Option.map_eq_some_iff.1 (by simpa using hi)
    obtain ⟨j, hj⟩ := ih hi'
    exact ⟨j + 1, by simp [List.findIdx?_cons, hdelivers, hj]⟩
  | first hdelivers _ _ _ _ => exact ⟨0, by simp [List.findIdx?_cons, hdelivers]⟩

/-- The start is told with the first sample if and only if the first delivery was asked for one. -/
theorem marksStart_iff_firstSample (h : StartsOnce frameSize attempts xs) :
    (∀ i x, xs[i]? = some x → (x.marksStart ↔ xs.findIdx? (0 < ·.count) = some i)) ↔
      ∀ i a, attempts[i]? = some a → xs.findIdx? Received.delivers = some i →
        0 < a.limit frameSize := by
  constructor
  · intro hmarks i a ha hfirst
    obtain ⟨hi, -⟩ := List.findIdx?_eq_some_iff_getElem.1 hfirst
    have hx := List.getElem?_eq_getElem hi
    rw [← h.firstSample_iff i ha hfirst, ← hmarks i _ hx]
    exact (h.marksStart_iff_first i hx).2 hfirst
  · intro hlimit i x hx
    -- wherever the first delivery is, the first sample is there too
    have hsame : ∀ j, xs.findIdx? Received.delivers = some j →
        xs.findIdx? (0 < ·.count) = some j := by
      intro j hj
      obtain ⟨hlt, -⟩ := List.findIdx?_eq_some_iff_getElem.1 hj
      have ha := List.getElem?_eq_getElem (h.length_eq ▸ hlt : j < attempts.length)
      exact (h.firstSample_iff j ha hj).2 (hlimit j _ ha hj)
    rw [h.marksStart_iff_first i hx]
    refine ⟨hsame i, fun hi => ?_⟩
    obtain ⟨j, hj⟩ := h.exists_delivery hi
    rw [hj, ← hsame j hj, hi]

end StartsOnce

end Attempt

/-! ## One transfer -/

namespace Receiver

/-- A stream that is abreast of its mailboxes and carries out a command that leaves something to
deliver, or none.  The next delivery starts a burst, or does not. -/
structure Underway (r : Receiver α) (office : PostOffice α) (first : Bool) : Prop
    extends r.Abreast office where
  first : r.run.mode ≠ .idle → r.run.firstPacket = first
  left : ∀ n told, r.run.mode = .finite n told → 0 < n

theorem Underway.awaiting {r : Receiver α} {office : PostOffice α} {first : Bool}
    (h : r.Underway office first) (start : Option (TimeSpec α)) :
    (r.awaiting start).Underway office first :=
  ⟨h.toAbreast.awaiting start, h.first, h.left⟩

/-- After a delivery, the burst has started. -/
theorem Underway.advance {r : Receiver α} {office : PostOffice α} {first : Bool}
    (h : r.Underway office first) (count : Nat) :
    ({ r with run := (advance r.run count).1 } : Receiver α).Underway office false where
  seen := (seen_advance r.run count).trans h.seen
  late := by
    rw [advance_eq]
    exact h.late
  first _ := by rw [advance_eq]
  left := by
    intro n told hmode
    unfold Receiver.advance at hmode
    dsimp only at hmode
    split at hmode
    · split at hmode
      · cases hmode
      · cases hmode
        omega
    · rename_i hother
      exact absurd hmode (hother n told)

/-- Samples are delivered if they are asked for. -/
theorem Underway.portion_pos {r : Receiver α} {office : PostOffice α} {first : Bool}
    (h : r.Underway office first) (hmode : r.run.mode ≠ .idle) (a : Attempt σ α) :
    0 < r.portion a.wanted a.onePacket ↔ 0 < a.limit r.frameSize := by
  match hm : r.run.mode with
  | .idle => exact absurd hm hmode
  | .continuous => rw [portion_of_continuous hm]
  | .finite n told =>
    have hn := h.left n told hm
    rw [portion_of_finite hm]
    omega

/-- A stream whose burst has not started: nothing was delivered of it, or the command for it is
still in a mailbox. -/
inductive Unheard (r : Receiver α) (office : PostOffice α) : Prop
  | underway (h : r.Underway office true)
  | due {command : StreamCommand α} {late : Bool} (starts : command.Starts)
      (taken : taken r.run r.channels office = some (command, late)) (onTime : r.run.late = false)

end Receiver

/-- What a transfer comes to on a stream with a burst: it delivers nothing and keeps the stream as
it was, or it delivers, and that starts the burst or does not. -/
inductive Received.Advances (x : Received α) (asked : Nat) (first : Bool)
    (before after : Receiver α → Prop) : Prop
  | nothing (delivers : x.delivers = false) (marks : x.marksStart = false) (count : x.count = 0)
      (kept : before x.receiver)
  | delivery (delivers : x.delivers = true) (marks : x.marksStart = first)
      (count : 0 < x.count ↔ 0 < asked) (started : after x.receiver)

theorem Received.Advances.mono {x : Received α} {asked : Nat} {first : Bool}
    {before before' after : Receiver α → Prop} (hbefore : ∀ r, before r → before' r)
    (h : x.Advances asked first before after) : x.Advances asked first before' after := by
  cases h with
  | nothing hdelivers hmarks hcount hkept =>
    exact .nothing hdelivers hmarks hcount (hbefore _ hkept)
  | delivery hdelivers hmarks hcount hstarted => exact .delivery hdelivers hmarks hcount hstarted

variable [Scalar α]

namespace Receiver

omit [Scalar α] in
theorem underway_primed {r : Receiver α} (h : r.run.late = false) {command : StreamCommand α}
    (hstarts : command.Starts) (start : TimeSpec α) (office : PostOffice α) :
    (r.primed command start office).Underway office true where
  toAbreast := abreast_primed h command start office
  first _ := by rw [run_primed r hstarts.mode_ne]
  left := by
    intro n told hmode
    rw [run_primed r hstarts.mode_ne] at hmode
    unfold modeOf at hmode
    rcases hstarts with hm | ⟨hm | hm, hcount⟩
    · simp [hm] at hmode
    · simp only [hm] at hmode
      cases hmode
      exact hcount
    · simp only [hm] at hmode
      cases hmode
      exact hcount

end Receiver

namespace Attempt

open Receiver

variable {r : Receiver α} {office : PostOffice α}

/-- A transfer keeps a burst underway.  If that has not started, a delivery starts it. -/
theorem on_of_underway {a : Attempt σ α} {first : Bool} (h : r.Underway office first)
    (hquiet : a.Quiet r.channels office) :
    (a.on r).receiver = { r with run := (a.on r).receiver.run } ∧
      (a.on r).Advances (a.limit r.frameSize) first (·.Underway office first)
        (·.Underway office false) := by
  rcases a.refused_or_accepted r with ⟨f, -, hon⟩ | haccepted
  · rw [hon]
    exact ⟨rfl, .nothing rfl rfl rfl h⟩
  · obtain ⟨start, (⟨f, hon⟩ | hon) | ⟨hmode, hon⟩⟩ := on_of_abreast h.toAbreast haccepted hquiet
    · rw [hon]
      exact ⟨rfl, .nothing rfl rfl rfl (h.awaiting start)⟩
    · rw [hon]
      exact ⟨rfl, .nothing rfl rfl rfl (h.awaiting start)⟩
    · have hawaiting := h.awaiting start
      have hfirst : (r.awaiting start).run.firstPacket = first := hawaiting.first hmode
      have hportion := hawaiting.portion_pos hmode a
      rw [hon]
      unfold deliver
      cases (r.awaiting start).run.streamStart.addSecs
          (Scalar.ofInt (r.awaiting start).run.produced / (r.awaiting start).rate) with
      | error f => exact ⟨rfl, .nothing rfl rfl rfl hawaiting⟩
      | ok time => exact ⟨rfl, .delivery rfl hfirst hportion (hawaiting.advance _)⟩

/-- A late command is reported, and nothing starts. -/
theorem on_of_late {a : Attempt σ α} {command : StreamCommand α}
    (htaken : taken r.run r.channels office = some (command, true))
    (haccepted : a.Accepted r) (hquiet : a.Quiet r.channels office) :
    a.on r = ⟨.ok ({ (RxMetadata.blank : RxMetadata α) with error := .lateCommand }, 0), a.buffers,
      { r with run := { r.run with
          seen := office.numbers r.channels
          mode := .idle
          late := false } }⟩ := by
  have hscene : a.world.scene a.state = a.scene := rfl
  have hpass : pass r.run r.channels a.scene = (.ok .late, { r.run with
      seen := office.numbers r.channels
      mode := .idle
      late := false }) := by
    rw [Receiver.pass_eq, taken_congr _ hquiet.first, htaken, numbers_congr hquiet.first]
    simp [carryOut, proceed, Run.see]
  rw [on_eq_listen haccepted, Receiver.listen, hscene, hpass]
  rfl

/-- A transfer leaves a burst to be started, or it starts the burst. -/
theorem on_of_unheard [Scalar.WordSized α] {a : Attempt σ α} (h : r.Unheard office)
    (hquiet : a.Quiet r.channels office) :
    (a.on r).receiver = { r with run := (a.on r).receiver.run } ∧
      (a.on r).Advances (a.limit r.frameSize) true (·.Unheard office)
        (·.Underway office false) := by
  rcases a.refused_or_accepted r with ⟨f, -, hon⟩ | haccepted
  · rw [hon]
    exact ⟨rfl, .nothing rfl rfl rfl h⟩
  · have hkeeps : ∀ r' : Receiver α, r'.Underway office true → r'.Unheard office :=
      fun _ => .underway
    cases h with
    | underway h => exact (on_of_underway h hquiet).imp_right (Received.Advances.mono hkeeps)
    | @due command late starts taken onTime =>
      cases late with
      | true =>
        rw [on_of_late taken haccepted hquiet]
        exact ⟨rfl, .nothing rfl rfl rfl (.underway
          ⟨⟨rfl, rfl⟩, fun hm => absurd rfl hm, fun n told hm => by cases hm⟩)⟩
      | false =>
        rw [on_eq_on_primed taken onTime starts.mode_ne haccepted hquiet]
        have hprimed := underway_primed onTime starts (command.startIn a.scene) office
        exact (on_of_underway hprimed hquiet).imp_right (Received.Advances.mono hkeeps)

/-! ## All that follow -/

/-- Once a burst has started, no transfer starts it again. -/
theorem marksStart_of_underway {attempts : List (Attempt σ α)} (h : r.Underway office false)
    (hquiet : ∀ a ∈ attempts, a.Quiet r.channels office) :
    ∀ x ∈ transfers attempts r, x.marksStart = false := by
  induction attempts generalizing r with
  | nil => simp [transfers]
  | cons a attempts ih =>
    obtain ⟨hreceiver, hadvances⟩ := on_of_underway h (hquiet a List.mem_cons_self)
    have hmarks : (a.on r).marksStart = false := by
      cases hadvances with
      | nothing _ hmarks _ _ => exact hmarks
      | delivery _ hmarks _ _ => exact hmarks
    have hunderway : (a.on r).receiver.Underway office false := by
      cases hadvances with
      | nothing _ _ _ hkept => exact hkept
      | delivery _ _ _ hstarted => exact hstarted
    have hchannels : (a.on r).receiver.channels = r.channels := by rw [hreceiver]
    intro x hx
    rcases List.mem_cons.1 hx with rfl | hx
    · exact hmarks
    · refine ih hunderway ?_ x hx
      rw [hchannels]
      exact fun b hb => hquiet b (List.mem_cons_of_mem _ hb)

theorem startsOnce_of_unheard [Scalar.WordSized α] {attempts : List (Attempt σ α)}
    (h : r.Unheard office) (hquiet : ∀ a ∈ attempts, a.Quiet r.channels office) :
    StartsOnce r.frameSize attempts (transfers attempts r) := by
  induction attempts generalizing r with
  | nil => exact .nil
  | cons a attempts ih =>
    obtain ⟨hreceiver, hadvances⟩ := on_of_unheard h (hquiet a List.mem_cons_self)
    have hchannels : (a.on r).receiver.channels = r.channels := by rw [hreceiver]
    have hframe : (a.on r).receiver.frameSize = r.frameSize := by rw [hreceiver]
    have hquiet' : ∀ b ∈ attempts, b.Quiet (a.on r).receiver.channels office := by
      rw [hchannels]
      exact fun b hb => hquiet b (List.mem_cons_of_mem _ hb)
    cases hadvances with
    | nothing hdelivers hmarks hcount hunheard =>
      have hrest := ih hunheard hquiet'
      rw [hframe] at hrest
      exact .waiting hdelivers hmarks hcount hrest
    | delivery hdelivers hmarks hcount hstarted =>
      exact .first hdelivers hmarks hcount (marksStart_of_underway hstarted hquiet')
        (length_transfers _ _).symm

end Attempt

namespace Stage

open Attempt Receiver

variable {s : Stage α}

/-- Which transfer starts the burst of a command, whatever happened before it, as long as no
further command reaches the channels of the stream.  It is the first that comes to a delivery, and
no other.  That is the one with the first sample, and the only one in which the start is told, if
and only if the first delivery was not asked for nothing. -/
theorem Reachable.marksStart_iff [Scalar.WordSized α] (h : s.Reachable)
    {command : StreamCommand α} (hstarts : command.Starts) (now : TimeSpec α) {posted : List Nat}
    (hposted : ∃ c ∈ posted, c ∈ s.receiver.channels) {attempts : List (Attempt σ α)}
    (hquiet : ∀ a ∈ attempts,
      a.Quiet s.receiver.channels (s.office.issueAll command now posted)) :
    let xs := transfers attempts s.receiver
    (∀ i x, xs[i]? = some x →
      (x.marksStart ↔ xs.findIdx? Received.delivers = some i)) ∧
    ((∀ i x, xs[i]? = some x → (x.marksStart ↔ xs.findIdx? (0 < ·.count) = some i)) ↔
      ∀ i a, attempts[i]? = some a → xs.findIdx? Received.delivers = some i →
        0 < a.limit s.receiver.frameSize) := by
  intro xs
  have hunheard : s.receiver.Unheard (s.office.issueAll command now posted) :=
    .due hstarts (h.taken_issueAll command now hposted) h.late
  have honce := startsOnce_of_unheard hunheard hquiet
  exact ⟨fun i x hx => honce.marksStart_iff_first i hx, honce.marksStart_iff_firstSample⟩

/-- Four samples are asked for in a packet, and then the rest. -/
theorem marksStart_packet :
    let attempts := [still 4 true, still 4 false]
    let xs := transfers attempts threes.receiver
    ∀ i x, xs[i]? = some x → (x.marksStart ↔ xs.findIdx? (0 < ·.count) = some i) := by
  intro attempts xs
  have hstarts : five.Starts := Or.inr ⟨Or.inl rfl, by decide⟩
  have hquiet : ∀ a ∈ attempts, a.Quiet threes.receiver.channels
      (threes.office.issueAll five TimeSpec.zero [0]) := by
    intro a ha
    simp only [attempts, List.mem_cons, List.not_mem_nil, or_false] at ha
    rcases ha with rfl | rfl <;> exact quiet_still _ _
  obtain ⟨-, hiff⟩ := (Reachable.opened [] 0 .sc8 1 3 (by decide)).marksStart_iff hstarts
    TimeSpec.zero (by decide) hquiet
  refine hiff.2 fun i a ha _ => ?_
  have hmem := List.mem_of_getElem? ha
  simp only [attempts, List.mem_cons, List.not_mem_nil, or_false] at hmem
  rcases hmem with rfl | rfl <;> decide

/-- No samples are asked for, and then five: the start of the burst is told with none. -/
theorem marksStart_still :
    let attempts := [still 0 false, still 5 false]
    threes.Reachable ∧ five.Starts ∧
      (∀ a ∈ attempts, a.Accepted threes.receiver ∧ a.Quiet threes.receiver.channels
        (threes.office.issueAll five TimeSpec.zero [0])) ∧
      (transfers attempts threes.receiver).map (fun x => (x.count, x.marksStart)) =
        [(0, true), (5, false)] := by
  intro attempts
  refine ⟨Reachable.opened [] 0 .sc8 1 3 (by decide), Or.inr ⟨Or.inl rfl, by decide⟩, ?_, ?_⟩
  · intro a ha
    simp only [attempts, List.mem_cons, List.not_mem_nil, or_false] at ha
    rcases ha with rfl | rfl <;> exact ⟨rfl, quiet_still _ _⟩
  · decide +kernel

end Stage

end SoftRadio
