import SoftRadio.Proofs.Device.Change
import SoftRadio.Proofs.Stream.News

/-!
# Which calls post commands

Of all calls on a radio only one puts a command into a mailbox, and no call changes how many
mailboxes and boards there are.

* `perform_cases`: a call that succeeds keeps the mailboxes (`SameOffice`) or issues a command.
* `Sized`: there is a mailbox for every receive channel of every board, which `make` sees to and
  every call keeps.
* `frontend_lt_of_locate`: every receive channel that can be found has its mailbox.
-/

namespace SoftRadio.Device

variable {α : Type} {d d' d'' : Device α}

/-- Two radios of one size with the same mailboxes. -/
structure SameOffice (d d' : Device α) : Prop where
  geometry : d'.geometry = d.geometry
  boards : d'.boards.length = d.boards.length
  office : d'.office = d.office

theorem SameOffice.refl (d : Device α) : SameOffice d d := ⟨rfl, rfl, rfl⟩

theorem sameOffice_setBoard (d : Device α) (index : Nat) (b : Board α) :
    SameOffice d (d.setBoard index b) :=
  ⟨rfl, List.length_set, rfl⟩

variable [Scalar α]

/-- A call that succeeds leaves the mailboxes as they are, or it issues a command. -/
theorem perform_cases {looks : Nat → α} {call : Call α} {answer : Answer α}
    (h : d.perform looks call = .ok (answer, d')) :
    SameOffice d d' ∨ ∃ command chan, call = .issue command chan ∧
      d.issue command chan (looks 0) = .ok d' := by
  cases perform_change h with
  | office => exact Or.inr ⟨_, _, rfl, eq_ok_of_settle h⟩
  | nothing => exact Or.inl (SameOffice.refl d)
  | board | pins | clockRate | spec => exact Or.inl (sameOffice_setBoard d _ _)
  | clocks => exact Or.inl ⟨rfl, by simp [setTimeUnknownPulse], rfl⟩
  | rate | tuned | frontend | created | stored => exact Or.inl ⟨rfl, rfl, rfl⟩

/-! ## Channels and their mailboxes -/

/-- A complete issue: the command, the device time of it, and the mailboxes it goes to. -/
structure Posting (α : Type) where
  command : StreamCommand α
  now : TimeSpec α
  channels : List Nat

/-- The mailboxes after a posting, if there is one. -/
def postOn (office : PostOffice α) : Option (Posting α) → PostOffice α
  | none => office
  | some m => office.issueAll m.command m.now m.channels

/-- What issuing a command on a channel posts. -/
def postingOn (d : Device α) (command : StreamCommand α) (chan : Nat) (elapsed : α) :
    Except Fault (Posting α) := do
  let place ← d.locate .rx chan
  let b ← d.board place.board
  let now ← b.clock.now elapsed
  return ⟨command, now, [place.frontend]⟩

/-- What issuing a command on a stream posts. -/
def postingOf (d : Device α) (r : Receiver α) (command : StreamCommand α) (elapsed : α) :
    Except Fault (Posting α) := do
  let b ← d.board r.board
  let now ← b.clock.now elapsed
  return ⟨command, now, r.channels⟩

theorem issue_eq_map_postingOn (d : Device α) (command : StreamCommand α) (chan : Nat)
    (elapsed : α) : d.issue command chan elapsed =
      (fun m => { d with office := postOn d.office (some m) }) <$>
        d.postingOn command chan elapsed := by
  unfold issue postingOn
  cases d.locate .rx chan with
  | error f => rfl
  | ok place =>
    cases hb : d.board place.board with
    | error f => simp [bind, Except.bind, hb, Functor.map, Except.map]
    | ok b =>
      cases hn : b.clock.now elapsed with
      | error f => simp [bind, Except.bind, hb, hn, Functor.map, Except.map]
      | ok now =>
        simp [bind, Except.bind, hb, hn, pure, Except.pure, Functor.map, Except.map, postOn,
          PostOffice.issueAll]

theorem issueOn_eq_map_postingOf (d : Device α) (r : Receiver α) (command : StreamCommand α)
    (elapsed : α) : d.issueOn r command elapsed =
      (fun m => { d with office := postOn d.office (some m) }) <$>
        d.postingOf r command elapsed := by
  unfold issueOn postingOf
  cases hb : d.board r.board with
  | error f => rfl
  | ok b =>
    cases hn : b.clock.now elapsed with
    | error f => simp [bind, Except.bind, hn, Functor.map, Except.map]
    | ok now =>
      simp [bind, Except.bind, hn, pure, Except.pure, Functor.map, Except.map, postOn]

/-- There is a mailbox for every receive channel of every board. -/
structure Sized (d : Device α) : Prop where
  boxes : d.office.boxes.length = d.boards.length * d.geometry.rxChannels
  numbered : d.office.Numbered

omit [Scalar α] in
theorem Sized.of_sameOffice (hd : d.Sized) (h : SameOffice d d') : d'.Sized := by
  constructor
  case boxes =>
    rw [h.office, h.boards, h.geometry]
    exact hd.boxes
  case numbered =>
    rw [h.office]
    exact hd.numbered

theorem Sized.postOn (hd : d.Sized) (m : Option (Posting α)) :
    ({ d with office := postOn d.office m } : Device α).Sized := by
  cases m with
  | none => exact hd
  | some m =>
    exact ⟨(PostOffice.length_issueAll _ _ _ _).trans hd.boxes,
      hd.numbered.issueAll m.command m.now m.channels⟩

theorem sized_make {addr : Address} {g : Geometry α} (h : make addr g = .ok d) : d.Sized := by
  obtain ⟨-, -, h⟩ := bind_eq_ok_iff.1 h
  obtain ⟨tree, -, h⟩ := bind_eq_ok_iff.1 h
  obtain ⟨boards, hboards, h⟩ := bind_eq_ok_iff.1 h
  cases pure_eq_ok_iff.1 h
  have hlength : boards.length = g.boards := by
    rw [length_of_mapM_eq_ok hboards, List.length_range]
  constructor
  case boxes =>
    show (List.replicate _ _).length = boards.length * g.rxChannels
    rw [List.length_replicate, hlength]
  case numbered => exact PostOffice.numbered_make _

omit [Scalar α] in
/-- A channel is found on a board that is there and on a slot that its board has. -/
theorem locateFrom_lt {dir : Direction} {chan index passed : Nat} {boards : List (Board α)}
    {place : Location} (h : d.locateFrom dir chan index passed boards = .ok place) :
    place.frontend < (index + boards.length) * d.geometry.channels dir := by
  induction boards generalizing index passed with
  | nil => cases h
  | cons b rest ih =>
    unfold locateFrom at h
    split at h
    · obtain ⟨slot, hslot, h⟩ := bind_eq_ok_iff.1 h
      cases pure_eq_ok_iff.1 h
      have hlt := (slotIndex_eq_ok_iff.1 hslot).2
      calc index * d.geometry.channels dir + slot
          < index * d.geometry.channels dir + d.geometry.channels dir := by omega
        _ = (index + 1) * d.geometry.channels dir := by rw [Nat.add_mul, Nat.one_mul]
        _ ≤ (index + (b :: rest).length) * d.geometry.channels dir := by
          apply Nat.mul_le_mul_right
          rw [List.length_cons]
          omega
    · have hrest := ih h
      rw [List.length_cons]
      have hindex : index + 1 + rest.length = index + (rest.length + 1) := by omega
      rw [hindex] at hrest
      exact hrest

omit [Scalar α] in
/-- Every receive channel that is found has its mailbox. -/
theorem frontend_lt_of_locate (hd : d.Sized) {chan : Nat} {place : Location}
    (h : d.locate .rx chan = .ok place) : place.frontend < d.office.boxes.length := by
  have hlt := locateFrom_lt h
  rw [hd.boxes]
  simpa [Geometry.channels] using hlt

/-- A stream that was just opened is in order, and not late. -/
theorem inOrder_openReceiver (hd : d.Sized) {args : StreamArgs} {r : Receiver α}
    (h : d.openReceiver args = .ok r) :
    r.InOrder d.office ∧ r.run.late = false ∧ r.run.seen = d.office.numbers r.channels := by
  obtain ⟨⟨format, wire⟩, -, h⟩ := bind_eq_ok_iff.1 h
  obtain ⟨⟨places, board, rate, frameSize⟩, hsetup, h⟩ := bind_eq_ok_iff.1 h
  cases pure_eq_ok_iff.1 h
  obtain ⟨places', hplaces, hsetup⟩ := bind_eq_ok_iff.1 hsetup
  obtain ⟨fe, -, hsetup⟩ := bind_eq_ok_iff.1 hsetup
  obtain ⟨spp, -, hsetup⟩ := bind_eq_ok_iff.1 hsetup
  have hsame : places' = places := by
    split at hsetup
    · cases hsetup
    · obtain ⟨size, -, hsetup⟩ := bind_eq_ok_iff.1 hsetup
      cases pure_eq_ok_iff.1 hsetup
      rfl
    · obtain ⟨size, -, hsetup⟩ := bind_eq_ok_iff.1 hsetup
      cases pure_eq_ok_iff.1 hsetup
      rfl
  subst hsame
  refine ⟨Receiver.inOrder_make board format rate frameSize hd.numbered ?_, rfl, rfl⟩
  intro c hc
  obtain ⟨place, hplace, rfl⟩ := List.mem_map.1 hc
  obtain ⟨chan, -, hlocate⟩ := exists_of_mem_mapM hplaces hplace
  exact frontend_lt_of_locate hd hlocate

end SoftRadio.Device
