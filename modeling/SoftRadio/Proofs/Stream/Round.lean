import SoftRadio.Proofs.Stream.News

/-!
# Rounds of a transfer

A transfer looks at its stream again and again, and delivers samples the first time that it can.
`Receiver.round` is one such look together with the delivery, if there is one, and `Report` what
the caller learns from it.

* `recv_eq_rounds`: a transfer is some rounds, and returns what they return.
* `carryOut_see`, `proceed_see`: what a command and a look do does not depend on what was seen.
* `seen_round`: after a round everything in the mailboxes has been seen.
* `delivered_add_owed_round`: a round delivers what is owed of a bounded command, and no more.
-/

namespace SoftRadio

variable {α : Type}

/-- What is still to be delivered of a bounded command. -/
def RunMode.owed : RunMode → Nat
  | .finite remaining _ => remaining
  | _ => 0

/-- The same run after another look at the mailboxes. -/
def Run.see (run : Run α) (seen : List Nat) : Run α := { run with seen := seen }

variable [Scalar α]

/-- What a round depends on besides the mailboxes: the clock, and what the caller asks for. -/
structure Round (α : Type) where
  clock : Clock α
  elapsed : α
  wanted : Nat
  onePacket : Bool
  buffers : List (List UInt8)

/-- What the caller learns from a round: what the look came to and, if samples could be delivered,
the result of the transfer with the buffers. -/
structure Report (α : Type) where
  look : Except Fault (Pass α)
  transfer : Option (Except Fault (RxMetadata α × Nat) × List (List UInt8))

omit [Scalar α] in
/-- The number of samples delivered. -/
def Report.count (report : Report α) : Nat :=
  match report.transfer with
  | some (.ok (_, n), _) => n
  | _ => 0

namespace Receiver

/-- Deliver samples, if the look says so. -/
def finish (r : Receiver α) (q : Round α) :
    Except Fault (Pass α) × Run α → Report α × Receiver α
  | (.ok .ready, run) =>
    let received := ({ r with run := run } : Receiver α).deliver q.wanted q.onePacket q.buffers
    (⟨.ok .ready, some (received.result, received.buffers)⟩, received.receiver)
  | (look, run) => (⟨look, none⟩, { r with run := run })

/-- One round of a transfer. -/
def round (r : Receiver α) (office : PostOffice α) (q : Round α) : Report α × Receiver α :=
  r.finish q (pass r.run r.channels ⟨q.elapsed, q.clock, office⟩)

/-- A look that does not find samples to deliver ends the round. -/
theorem finish_of_ne_ready (r : Receiver α) (q : Round α) {look : Except Fault (Pass α)}
    (h : look ≠ .ok .ready) (run : Run α) :
    r.finish q (look, run) = (⟨look, none⟩, { r with run := run }) := by
  unfold finish
  split
  · rename_i he
    cases he
    exact absurd rfl h
  · rename_i he
    cases he
    rfl

/-! ## Transfers are made of rounds -/

section Transfer

variable {σ : Type} (world : World σ α) (wanted : Nat) (onePacket : Bool)
  (buffers : List (List UInt8))

/-- The round that a look at some state of the world would be. -/
def roundIn (r : Receiver α) (s : σ) : Report α × Receiver α :=
  r.round (world.scene s).office
    ⟨(world.scene s).clock, (world.scene s).elapsed, wanted, onePacket, buffers⟩

/-- Rounds at some states, one after the other. -/
def roundsIn : List σ → Receiver α → List (Report α) × Receiver α
  | [], r => ([], r)
  | s :: states, r =>
    let first := r.roundIn world wanted onePacket buffers s
    let rest := roundsIn states first.2
    (first.1 :: rest.1, rest.2)

/-- What follows the waiting of a transfer: a delivery, if it has come to that. -/
def conclude (r : Receiver α) : Except Fault Verdict →
    List (Except Fault (RxMetadata α × Nat) × List (List UInt8)) × Receiver α
  | .ok .ready =>
    let received := r.deliver wanted onePacket buffers
    ([(received.result, received.buffers)], received.receiver)
  | _ => ([], r)

/-- The waiting of a transfer and what follows it are rounds, at the states that are looked at. -/
theorem listen_eq_rounds (deadline : α) (fuel : Nat) (s : σ) (r : Receiver α) :
    ∃ states : List σ,
      ((roundsIn world wanted onePacket buffers states r).1.filterMap Report.transfer,
        (roundsIn world wanted onePacket buffers states r).2) =
      conclude wanted onePacket buffers (listen world deadline fuel s r).2.2
        (listen world deadline fuel s r).1 := by
  induction fuel generalizing s r with
  | zero => exact ⟨[], rfl⟩
  | succ fuel ih =>
    have hround : r.roundIn world wanted onePacket buffers s = r.finish
        ⟨(world.scene s).clock, (world.scene s).elapsed, wanted, onePacket, buffers⟩
        (pass r.run r.channels (world.scene s)) := rfl
    unfold listen
    cases hp : pass r.run r.channels (world.scene s) with
    | mk look run =>
      rw [hp] at hround
      simp only [hp]
      -- A look that does not end the transfer is a round without a delivery; the others follow.
      have hon : ∀ s', look ≠ .ok .ready → ∃ states : List σ,
          ((roundsIn world wanted onePacket buffers states r).1.filterMap Report.transfer,
            (roundsIn world wanted onePacket buffers states r).2) =
          conclude wanted onePacket buffers
            (listen world deadline fuel s' { r with run := run }).2.2
            (listen world deadline fuel s' { r with run := run }).1 := by
        intro s' hready
        obtain ⟨states, h⟩ := ih s' { r with run := run }
        have hnone : r.roundIn world wanted onePacket buffers s =
            (⟨look, none⟩, { r with run := run }) := by
          rw [hround]
          exact finish_of_ne_ready r _ hready run
        refine ⟨s :: states, ?_⟩
        rw [← h]
        simp [roundsIn, hnone]
      match look with
      | .error f => exact ⟨[s], by simp [roundsIn, hround, finish, conclude]⟩
      | .ok .late => exact ⟨[s], by simp [roundsIn, hround, finish, conclude]⟩
      | .ok .ready => exact ⟨[s], by simp [roundsIn, hround, finish, conclude]⟩
      | .ok .idle =>
        dsimp only
        split
        · exact hon _ (by simp)
        · exact ⟨[s], by simp [roundsIn, hround, finish, conclude]⟩
      | .ok (.early delay) =>
        dsimp only
        split
        · exact ⟨[s], by simp [roundsIn, hround, finish, conclude]⟩
        · exact hon _ (by simp)

/-- A transfer is some rounds.  It returns what the one of them that delivers returns, and if none
does, no samples and the buffers as they were. -/
theorem recv_eq_rounds (fuel : Nat) (s : σ) (r : Receiver α) (timeout : α) :
    let received := (recv world fuel s r buffers wanted timeout onePacket).1
    ∃ states : List σ,
      (roundsIn world wanted onePacket buffers states r).2 = received.receiver ∧
      ((roundsIn world wanted onePacket buffers states r).1.filterMap Report.transfer =
          [(received.result, received.buffers)] ∨
        (roundsIn world wanted onePacket buffers states r).1.filterMap Report.transfer = [] ∧
          received.buffers = buffers ∧ ∀ md n, received.result = .ok (md, n) → n = 0) := by
  intro received
  cases hcheck : checkBuffers buffers.length r.channelCount (buffers.map List.length) wanted
      r.itemSize with
  | error f =>
    have hreceived : received = ⟨.error f, buffers, r⟩ := by
      show (recv world fuel s r buffers wanted timeout onePacket).1 = _
      unfold recv
      rw [hcheck]
    rw [hreceived]
    exact ⟨[], rfl, Or.inr ⟨rfl, rfl, fun md n h => by cases h⟩⟩
  | ok =>
    obtain ⟨states, h⟩ := listen_eq_rounds world wanted onePacket buffers
      ((world.scene s).elapsed + boundedWait timeout) fuel s r
    refine ⟨states, ?_⟩
    have hreceived : received = (recv world fuel s r buffers wanted timeout onePacket).1 := rfl
    unfold recv at hreceived
    simp only [hcheck] at hreceived
    rw [hreceived]
    have htransfer := congrArg Prod.fst h
    have hreceiver := congrArg Prod.snd h
    dsimp only at htransfer hreceiver
    rw [htransfer, hreceiver]
    match listen world ((world.scene s).elapsed + boundedWait timeout) fuel s r with
    | (.error f, s', r') => exact ⟨rfl, Or.inr ⟨rfl, rfl, fun md n h => by cases h⟩⟩
    | (.ok .late, s', r') => exact ⟨rfl, Or.inr ⟨rfl, rfl, fun md n h => by cases h; rfl⟩⟩
    | (.ok .timeout, s', r') => exact ⟨rfl, Or.inr ⟨rfl, rfl, fun md n h => by cases h; rfl⟩⟩
    | (.ok .ready, s', r') => exact ⟨rfl, Or.inl rfl⟩

end Transfer

/-! ## Looks, case by case -/

/-- What a look comes to: a failure so far ends it, lateness is reported and forgotten, without
a command there is nothing to do, and otherwise at most the start is forgotten. -/
theorem proceed_cases (result : Except Fault Unit) (run : Run α) (clock : Clock α) (elapsed : α) :
    (∃ f, result = .error f ∧ proceed clock elapsed (result, run) = (.error f, run)) ∨
    (result = .ok () ∧ run.late ∧
      proceed clock elapsed (result, run) = (.ok .late, { run with late := false })) ∨
    (result = .ok () ∧ run.late = false ∧ run.mode = .idle ∧
      proceed clock elapsed (result, run) = (.ok .idle, run)) ∨
    (result = .ok () ∧ run.late = false ∧ run.mode ≠ .idle ∧
      ∃ look start, look ≠ .ok .late ∧
        proceed clock elapsed (result, run) = (look, { run with startAt := start })) := by
  cases result with
  | error f => exact Or.inl ⟨f, rfl, rfl⟩
  | ok =>
    right
    by_cases hl : run.late
    · exact Or.inl ⟨rfl, hl, by simp [proceed, hl]⟩
    · have hl' : run.late = false := by simpa using hl
      by_cases hm : run.mode = .idle
      · exact Or.inr (Or.inl ⟨rfl, hl', hm, by simp [proceed, hl', hm]⟩)
      · refine Or.inr (Or.inr ⟨rfl, hl', hm, ?_⟩)
        cases hs : run.startAt with
        | none =>
          have h : proceed clock elapsed (.ok (), run) = (.ok .ready, run) := by
            simp [proceed, hl', hm, hs]
          exact ⟨.ok .ready, run.startAt, by simp, h⟩
        | some start =>
          cases hw : clock.now elapsed >>= fun now => now.secsUntil start with
          | error f =>
            have h : proceed clock elapsed (.ok (), run) = (.error f, run) := by
              simp [proceed, hl', hm, hs, hw]
            exact ⟨.error f, run.startAt, by simp, h⟩
          | ok delay =>
            by_cases hd : Scalar.lt (Scalar.ofInt 0) delay
            · have h : proceed clock elapsed (.ok (), run) = (.ok (.early delay), run) := by
                simp [proceed, hl', hm, hs, hw, hd]
              exact ⟨.ok (.early delay), run.startAt, by simp, h⟩
            · exact ⟨.ok .ready, none, by simp, by simp [proceed, hl', hm, hs, hw, hd]⟩

/-! ## What was seen -/

theorem begin_see (run : Run α) (seen : List Nat) (command : StreamCommand α) (clock : Clock α)
    (elapsed : α) : begin (run.see seen) command clock elapsed =
      ((begin run command clock elapsed).1, (begin run command clock elapsed).2.see seen) := by
  unfold begin
  split
  · rfl
  · dsimp only
    split <;> rfl

theorem carryOut_see (run : Run α) (seen : List Nat) (clock : Clock α) (elapsed : α)
    (mail : Option (StreamCommand α × Bool)) : carryOut (run.see seen) clock elapsed mail =
      ((carryOut run clock elapsed mail).1, (carryOut run clock elapsed mail).2.see seen) := by
  match mail with
  | none => rfl
  | some (_, true) => rfl
  | some (command, false) => exact begin_see run seen command clock elapsed

theorem proceed_see (result : Except Fault Unit) (run : Run α) (seen : List Nat) (clock : Clock α)
    (elapsed : α) : proceed clock elapsed (result, run.see seen) =
      ((proceed clock elapsed (result, run)).1,
        (proceed clock elapsed (result, run)).2.see seen) := by
  cases result with
  | error f => rfl
  | ok =>
    by_cases hl : run.late
    · simp [proceed, Run.see, hl]
    · by_cases hm : run.mode = .idle
      · simp [proceed, Run.see, hl, hm]
      · cases hs : run.startAt with
        | none => simp [proceed, Run.see, hl, hm, hs]
        | some start =>
          cases hw : clock.now elapsed >>= fun now => now.secsUntil start with
          | error f => simp [proceed, Run.see, hl, hm, hs, hw]
          | ok delay =>
            by_cases hd : Scalar.lt (Scalar.ofInt 0) delay
            · simp [proceed, Run.see, hl, hm, hs, hw, hd]
            · simp [proceed, Run.see, hl, hm, hs, hw, hd]

/-- A look sees everything, carries out what it takes, and goes on from there. -/
theorem pass_eq (run : Run α) (channels : List Nat) (scene : Scene α) :
    pass run channels scene = proceed scene.clock scene.elapsed
      (carryOut (run.see (scene.office.numbers channels)) scene.clock scene.elapsed
        (taken run channels scene.office)) := rfl

theorem seen_pass (run : Run α) (channels : List Nat) (scene : Scene α) :
    (pass run channels scene).2.seen = scene.office.numbers channels := by
  rw [pass_eq, carryOut_see, proceed_see]
  rfl

omit [Scalar α] in
theorem advance_see (run : Run α) (seen : List Nat) (count : Nat) :
    advance (run.see seen) count = ((advance run count).1.see seen, (advance run count).2) := by
  unfold advance Run.see
  cases run.mode with
  | idle => rfl
  | continuous => rfl
  | finite remaining endsBurst =>
    dsimp only
    split <;> rfl

omit [Scalar α] in
theorem seen_advance (run : Run α) (count : Nat) : (advance run count).1.seen = run.seen := by
  have h := congrArg (fun p => p.1.seen) (advance_see run run.seen count)
  exact h

theorem deliver_receiver (r : Receiver α) (wanted : Nat) (onePacket : Bool)
    (buffers : List (List UInt8)) :
    (∃ f, (r.deliver wanted onePacket buffers).result = .error f ∧
      (r.deliver wanted onePacket buffers).receiver = r) ∨
    (∃ md, (r.deliver wanted onePacket buffers).result = .ok (md, r.portion wanted onePacket) ∧
      (r.deliver wanted onePacket buffers).receiver =
        { r with run := (advance r.run (r.portion wanted onePacket)).1 }) := by
  unfold deliver
  cases r.run.streamStart.addSecs (Scalar.ofInt r.run.produced / r.rate) with
  | error f => exact Or.inl ⟨f, rfl, rfl⟩
  | ok time => exact Or.inr ⟨_, rfl, rfl⟩

/-- A round is a look, and possibly a delivery. -/
theorem round_cases (r : Receiver α) (office : PostOffice α) (q : Round α) :
    ((pass r.run r.channels ⟨q.elapsed, q.clock, office⟩).1 = .ok .ready ∧
      (r.round office q).1.count =
        portion { r with run := (pass r.run r.channels ⟨q.elapsed, q.clock, office⟩).2 }
          q.wanted q.onePacket ∧
      (r.round office q).2 =
        { r with run := (advance (pass r.run r.channels ⟨q.elapsed, q.clock, office⟩).2
          (portion { r with run := (pass r.run r.channels ⟨q.elapsed, q.clock, office⟩).2 }
            q.wanted q.onePacket)).1 }) ∨
    ((r.round office q).1.count = 0 ∧
      (r.round office q).2 =
        { r with run := (pass r.run r.channels ⟨q.elapsed, q.clock, office⟩).2 }) := by
  unfold round
  cases hp : pass r.run r.channels ⟨q.elapsed, q.clock, office⟩ with
  | mk outcome run =>
    by_cases hready : outcome = .ok .ready
    · subst hready
      rcases deliver_receiver { r with run := run } q.wanted q.onePacket q.buffers with
        ⟨f, hresult, hreceiver⟩ | ⟨md, hresult, hreceiver⟩
      · right
        simp only [finish, Report.count, hresult, hreceiver, and_self]
      · left
        simp only [finish, Report.count, hresult, hreceiver, and_self]
    · right
      rw [finish_of_ne_ready r q hready]
      exact ⟨rfl, rfl⟩

omit [Scalar α] in
/-- The same stream after another look at the mailboxes. -/
def see (r : Receiver α) (seen : List Nat) : Receiver α := { r with run := r.run.see seen }

theorem deliver_see (r : Receiver α) (seen : List Nat) (wanted : Nat) (onePacket : Bool)
    (buffers : List (List UInt8)) : (r.see seen).deliver wanted onePacket buffers =
      { r.deliver wanted onePacket buffers with
        receiver := (r.deliver wanted onePacket buffers).receiver.see seen } := by
  have hadvance := advance_see r.run seen (r.portion wanted onePacket)
  have hportion : (r.see seen).portion wanted onePacket = r.portion wanted onePacket := rfl
  unfold deliver
  rw [hportion]
  have htime : (r.see seen).run.streamStart.addSecs
      (Scalar.ofInt (r.see seen).run.produced / (r.see seen).rate) =
        r.run.streamStart.addSecs (Scalar.ofInt r.run.produced / r.rate) := rfl
  rw [htime]
  cases r.run.streamStart.addSecs (Scalar.ofInt r.run.produced / r.rate) with
  | error f => rfl
  | ok time =>
    have hrun : (r.see seen).run = r.run.see seen := rfl
    dsimp only
    rw [hrun, hadvance]
    rfl

theorem finish_see (r : Receiver α) (q : Round α) (look : Except Fault (Pass α)) (run : Run α)
    (seen : List Nat) : r.finish q (look, run.see seen) =
      ((r.finish q (look, run)).1, (r.finish q (look, run)).2.see seen) := by
  by_cases hready : look = .ok .ready
  · subst hready
    have hdeliver := deliver_see { r with run := run } seen q.wanted q.onePacket q.buffers
    have hrun :
        ({ r with run := run } : Receiver α).see seen = { r with run := run.see seen } := rfl
    rw [hrun] at hdeliver
    unfold finish
    dsimp only
    rw [hdeliver]
  · rw [finish_of_ne_ready r q hready, finish_of_ne_ready r q hready]
    rfl

theorem channels_round (r : Receiver α) (office : PostOffice α) (q : Round α) :
    (r.round office q).2.channels = r.channels := by
  rcases round_cases r office q with ⟨-, -, h⟩ | ⟨-, h⟩ <;> rw [h]

theorem seen_round (r : Receiver α) (office : PostOffice α) (q : Round α) :
    (r.round office q).2.run.seen = office.numbers r.channels := by
  rcases round_cases r office q with ⟨-, -, h⟩ | ⟨-, h⟩
  · rw [h]
    exact (seen_advance _ _).trans (seen_pass _ _ _)
  · rw [h]
    exact seen_pass _ _ _

/-! ## What is owed -/

/-- A command sets the mode, to the one it asks for or, if it was late, to none. -/
theorem mode_carryOut_some (run : Run α) (clock : Clock α) (elapsed : α)
    (command : StreamCommand α) (late : Bool) :
    (carryOut run clock elapsed (some (command, late))).2.mode =
      if late then .idle else modeOf command := by
  cases late with
  | true => rfl
  | false =>
    show (begin run command clock elapsed).2.mode = modeOf command
    unfold begin
    split
    · rfl
    · dsimp only
      split <;> rfl

theorem mode_proceed (result : Except Fault Unit) (run : Run α) (clock : Clock α) (elapsed : α) :
    (proceed clock elapsed (result, run)).2.mode = run.mode := by
  rcases proceed_cases result run clock elapsed with
    ⟨f, -, h⟩ | ⟨-, -, h⟩ | ⟨-, -, -, h⟩ | ⟨-, -, -, look, start, -, h⟩ <;> rw [h]

/-- Samples are delivered only while a command is carried out. -/
theorem mode_ne_idle_of_ready {result : Except Fault Unit} {run : Run α} {clock : Clock α}
    {elapsed : α} (hready : (proceed clock elapsed (result, run)).1 = .ok .ready) :
    run.mode ≠ .idle := by
  rcases proceed_cases result run clock elapsed with
    ⟨f, -, h⟩ | ⟨-, -, h⟩ | ⟨-, -, -, h⟩ | ⟨-, -, hm, -⟩
  · rw [h] at hready
    cases hready
  · rw [h] at hready
    cases hready
  · rw [h] at hready
    cases hready
  · exact hm

theorem mode_pass (run : Run α) (channels : List Nat) (scene : Scene α) :
    (pass run channels scene).2.mode =
      match taken run channels scene.office with
      | none => run.mode
      | some (command, late) => if late then .idle else modeOf command := by
  unfold pass
  cases hp : poll run channels scene with
  | mk result after =>
    rw [mode_proceed]
    have hafter : after = (poll run channels scene).2 := by rw [hp]
    rw [hafter]
    unfold poll
    cases taken run channels scene.office with
    | none => rfl
    | some mail => exact mode_carryOut_some _ _ _ mail.1 mail.2

theorem mode_pass_ne_idle {run : Run α} {channels : List Nat} {scene : Scene α}
    (h : (pass run channels scene).1 = .ok .ready) :
    (pass run channels scene).2.mode ≠ .idle := by
  unfold pass at h ⊢
  cases hp : poll run channels scene with
  | mk result after =>
    rw [hp] at h
    rw [mode_proceed]
    exact mode_ne_idle_of_ready h

/-- Of a bounded command no more is delivered than is owed, and what is delivered is no longer
owed. -/
theorem delivered_add_owed_round {r : Receiver α} {office : PostOffice α} {q : Round α}
    (h : (pass r.run r.channels ⟨q.elapsed, q.clock, office⟩).2.mode ≠ .continuous) :
    (r.round office q).1.count + (r.round office q).2.run.mode.owed ≤
        (pass r.run r.channels ⟨q.elapsed, q.clock, office⟩).2.mode.owed ∧
      (r.round office q).2.run.mode ≠ .continuous := by
  rcases round_cases r office q with ⟨hready, hcount, hround⟩ | ⟨hcount, hround⟩
  · rw [hcount, hround]
    have hne := mode_pass_ne_idle hready
    generalize (pass r.run r.channels ⟨q.elapsed, q.clock, office⟩).2 = run at h hne ⊢
    cases hmode : run.mode with
    | idle => exact absurd hmode hne
    | continuous => exact absurd hmode h
    | finite remaining endsBurst =>
      have hportion : portion { r with run := run } q.wanted q.onePacket ≤ remaining := by
        unfold portion
        simp only [hmode]
        split <;> omega
      generalize portion { r with run := run } q.wanted q.onePacket = n at hportion ⊢
      unfold advance
      simp only [hmode]
      split
      · simp only [RunMode.owed]
        exact ⟨by omega, by simp⟩
      · simp only [RunMode.owed]
        exact ⟨by omega, by simp⟩
  · rw [hcount, hround]
    exact ⟨by simp, h⟩

/-! ## Lateness -/

theorem proceed_eq_late_iff (result : Except Fault Unit) (run : Run α) (clock : Clock α)
    (elapsed : α) :
    (proceed clock elapsed (result, run)).1 = .ok .late ↔ result = .ok () ∧ run.late := by
  rcases proceed_cases result run clock elapsed with
    ⟨f, hr, h⟩ | ⟨hr, hl, h⟩ | ⟨hr, hl, -, h⟩ | ⟨hr, hl, -, look, start, hne, h⟩
  · rw [h, hr]
    simp
  · rw [h, hr]
    simp [hl]
  · rw [h, hr]
    simp [hl]
  · rw [h, hr]
    simp [hl, hne]

/-- A look that goes through reports lateness and forgets it. -/
theorem late_proceed (result : Except Fault Unit) (run : Run α) (clock : Clock α) (elapsed : α)
    (hlate : run.late → result = .ok ()) :
    (proceed clock elapsed (result, run)).2.late = false := by
  rcases proceed_cases result run clock elapsed with
    ⟨f, hr, h⟩ | ⟨-, -, h⟩ | ⟨-, hl, -, h⟩ | ⟨-, hl, -, look, start, -, h⟩
  · rw [h]
    cases hl : run.late with
    | false => rfl
    | true =>
      rw [hlate hl] at hr
      cases hr
  · rw [h]
  · rw [h]
    exact hl
  · rw [h]
    exact hl

theorem late_begin (run : Run α) (command : StreamCommand α) (clock : Clock α) (elapsed : α) :
    (begin run command clock elapsed).2.late = run.late := by
  unfold begin
  split
  · rfl
  · dsimp only
    split <;> rfl

/-- A stream that is not late gets late by a late command only. -/
theorem late_carryOut_iff {run : Run α} (h : run.late = false) (clock : Clock α) (elapsed : α)
    (mail : Option (StreamCommand α × Bool)) :
    (carryOut run clock elapsed mail).2.late ↔ ∃ command, mail = some (command, true) := by
  match mail with
  | none => simp [carryOut, h]
  | some (command, true) => simp [carryOut]
  | some (command, false) =>
    show (begin run command clock elapsed).2.late ↔ _
    rw [late_begin, h]
    simp

theorem carryOut_eq_ok_of_late {run : Run α} (h : run.late = false) {clock : Clock α} {elapsed : α}
    {mail : Option (StreamCommand α × Bool)} (hl : (carryOut run clock elapsed mail).2.late) :
    (carryOut run clock elapsed mail).1 = .ok () := by
  obtain ⟨command, rfl⟩ := (late_carryOut_iff h clock elapsed mail).1 hl
  rfl

/-- What was late is reported, and nothing else is reported as late. -/
theorem look_round_eq_late_iff {r : Receiver α} (h : r.run.late = false) (office : PostOffice α)
    (q : Round α) : (r.round office q).1.look = .ok .late ↔
      ∃ command, taken r.run r.channels office = some (command, true) := by
  have hlook : (r.round office q).1.look =
      (pass r.run r.channels ⟨q.elapsed, q.clock, office⟩).1 := by
    unfold round finish
    split <;> (rename_i he; rw [he])
  have hl : (r.run.see (office.numbers r.channels)).late = false := h
  rw [hlook, pass_eq, ← late_carryOut_iff hl q.clock q.elapsed]
  refine (proceed_eq_late_iff _ _ q.clock q.elapsed).trans ?_
  exact ⟨fun hr => hr.2, fun hr => ⟨carryOut_eq_ok_of_late hl hr, hr⟩⟩

theorem late_round {r : Receiver α} (h : r.run.late = false) (office : PostOffice α) (q : Round α) :
    (r.round office q).2.run.late = false := by
  have hl : (r.run.see (office.numbers r.channels)).late = false := h
  have hpass : (pass r.run r.channels ⟨q.elapsed, q.clock, office⟩).2.late = false :=
    late_proceed _ _ _ _ fun hr => carryOut_eq_ok_of_late hl hr
  rcases round_cases r office q with ⟨-, -, hround⟩ | ⟨-, hround⟩
  · rw [hround]
    unfold advance
    dsimp only
    split
    · split <;> exact hpass
    · exact hpass
  · rw [hround]
    exact hpass

end Receiver

end SoftRadio
