import SoftRadio.Proofs.Session.Operation
import SoftRadio.Proofs.Session.Tied

/-!
# Sessions are a map from handles to streams

A `Ledger` is a session without bindings and places: it maps a handle that is there directly to
the stream that was last attached to it, and to the number of the device of that attach.  What it
says of a handle is changed by what is done with the handle itself, and by nothing else but the
end of devices.

* `Ledger.reach`: the stream that a handle leads to, and its device.
* `Agrees`: a session and a ledger tell the same of every device and of every handle.
* `agrees_run`, `agrees_runAll`: every operation keeps them in agreement.
* `streamRun_eq_reach`: a call through a handle runs on what the handle leads to in the ledger of
  the run, and other handles have no part in it.
-/

namespace SoftRadio.Session

variable {δ : Type} {σ : Direction → Type} {β ω : Type}

/-- What a ledger says of a handle. -/
inductive Standing (α : Type) where
  | absent
  | unattached
  | attached (index : Nat) (stream : α)

/-- Devices by their numbers, and streams by their handles. -/
structure Ledger (δ : Type) (σ : Direction → Type) where
  device : Nat → Option δ
  standing : Sides fun dir => Nat → Standing (σ dir)

namespace Ledger

def empty : Ledger δ σ := ⟨fun _ => none, ⟨fun _ => .absent, fun _ => .absent⟩⟩

def standingOf (l : Ledger δ σ) (dir : Direction) (handle : Nat) : Standing (σ dir) :=
  l.standing.get dir handle

def put (l : Ledger δ σ) (dir : Direction) (handle : Nat) (x : Standing (σ dir)) : Ledger δ σ :=
  { l with standing := l.standing.set dir fun handle' =>
      if handle' = handle then x else l.standing.get dir handle' }

def setDevice (l : Ledger δ σ) (index : Nat) (device : Option δ) : Ledger δ σ :=
  { l with device := fun i => if i = index then device else l.device i }

/-- The stream that a handle leads to, with the number of its device and the device. -/
def reach (l : Ledger δ σ) (dir : Direction) (handle : Nat) : Option (Nat × δ × σ dir) :=
  match l.standingOf dir handle with
  | .attached index stream => (l.device index).map fun device => (index, device, stream)
  | _ => none

/-- What each event means for a ledger.  An attach to a handle that is gone by then, which can
only be so if its build dropped everything, leaves it gone. -/
def note (l : Ledger δ σ) : Event δ σ → Ledger δ σ
  | .deviceMade index device => l.setDevice index (some device)
  | .deviceFreed index => l.setDevice index none
  | .streamMade dir handle => l.put dir handle .unattached
  | .streamFreed dir handle => l.put dir handle .absent
  | .attached dir index handle stream =>
    match l.standingOf dir handle with
    | .absent => l
    | _ => l.put dir handle (.attached index stream)
  | .deviceCalled index change => l.setDevice index ((l.device index).map change)
  | .streamCalled dir handle change =>
    match l.reach dir handle with
    | none => l
    | some (index, device, stream) =>
      (l.setDevice index (some (change device stream).1)).put dir handle
        (.attached index (change device stream).2)
  | .cleared => empty

/-- The ledger of a log. -/
def read (log : List (Event δ σ)) (l : Ledger δ σ) : Ledger δ σ := log.foldl note l

theorem read_append (log log' : List (Event δ σ)) (l : Ledger δ σ) :
    read (log ++ log') l = read log' (read log l) := by
  unfold read
  rw [List.foldl_append]

@[simp] theorem standingOf_empty (dir : Direction) (handle : Nat) :
    (empty : Ledger δ σ).standingOf dir handle = .absent := by
  cases dir <;> rfl

@[simp] theorem standingOf_setDevice (l : Ledger δ σ) (index : Nat) (device : Option δ)
    (dir : Direction) (handle : Nat) :
    (l.setDevice index device).standingOf dir handle = l.standingOf dir handle := rfl

theorem device_setDevice (l : Ledger δ σ) (index : Nat) (device : Option δ) (i : Nat) :
    (l.setDevice index device).device i = if i = index then device else l.device i := rfl

@[simp] theorem device_put (l : Ledger δ σ) (dir : Direction) (handle : Nat)
    (x : Standing (σ dir)) (i : Nat) : (l.put dir handle x).device i = l.device i := rfl

@[simp] theorem standingOf_put_self (l : Ledger δ σ) (dir : Direction) (handle : Nat)
    (x : Standing (σ dir)) : (l.put dir handle x).standingOf dir handle = x := by
  simp [put, standingOf]

theorem standingOf_put_of_ne (l : Ledger δ σ) {dir dir' : Direction} {handle handle' : Nat}
    (x : Standing (σ dir)) (h : ¬ (dir' = dir ∧ handle' = handle)) :
    (l.put dir handle x).standingOf dir' handle' = l.standingOf dir' handle' := by
  unfold put standingOf
  by_cases hd : dir' = dir
  · subst hd
    rw [Sides.get_set_self, if_neg fun hh => h ⟨rfl, hh⟩]
  · rw [Sides.get_set_of_ne _ _ hd]

end Ledger

/-! ## Agreement -/

/-- A session tells of a handle what a ledger says. -/
def Stands (s : Session δ σ) (dir : Direction) (handle : Nat) : Standing (σ dir) → Prop
  | .absent => s.isListed dir handle = false
  | .unattached => s.isListed dir handle ∧ s.bindingOf dir handle = none
  | .attached index stream => s.isListed dir handle ∧ ∃ offset,
      s.bindingOf dir handle = some ⟨index, offset⟩ ∧
      (s.isLive index → s.streamAt dir ⟨index, offset⟩ = some stream)

/-- A session between calls and a ledger tell the same of every device and of every handle. -/
structure Agrees (s : Session δ σ) (l : Ledger δ σ) : Prop where
  tied : Tied s Held.nothing
  device : ∀ i, s.deviceAt i = l.device i
  stands : ∀ dir handle, s.Stands dir handle (l.standingOf dir handle)

/-- A step that does not concern a handle: at the place it is bound to, nothing has changed, as
long as the device is there. -/
theorem Stands.frame {s s' : Session δ σ} {dir : Direction} {handle : Nat} {x : Standing (σ dir)}
    (h : s.Stands dir handle x) (hl : s'.isListed dir handle = s.isListed dir handle)
    (hb : s'.bindingOf dir handle = s.bindingOf dir handle)
    (hs : ∀ b, s.bindingOf dir handle = some b → s'.isLive b.device →
      s.isLive b.device ∧ s'.streamAt dir b = s.streamAt dir b) : s'.Stands dir handle x := by
  cases x with
  | absent => exact hl.trans h
  | unattached => exact ⟨hl.trans h.1, hb.trans h.2⟩
  | attached index stream =>
    obtain ⟨hlisted, offset, hbind, hstream⟩ := h
    refine ⟨hl.trans hlisted, offset, hb.trans hbind, fun hlive => ?_⟩
    obtain ⟨hlive', hsame⟩ := hs _ hbind hlive
    rw [hsame]
    exact hstream hlive'

theorem agrees_initial : Agrees (initial : Session δ σ) Ledger.empty := by
  constructor
  case tied => exact tied_initial
  case device =>
    intro i
    simp [deviceAt, initial, Ledger.empty]
  case stands =>
    intro dir handle
    rw [Ledger.standingOf_empty]
    show ((initial : Session δ σ).handles.get dir).contains handle = false
    cases dir <;> simp [initial, Sides.get, HandleTable.contains]

namespace Agrees

variable {s s' : Session δ σ} {l : Ledger δ σ}

/-- Steps that are not seen at all. -/
theorem of_sameView (h : Agrees s l) (hv : SameView s s') (hd : ∀ i, s'.deviceAt i = s.deviceAt i) :
    Agrees s' l := by
  refine ⟨h.tied.of_sameView hv, fun i => (hd i).trans (h.device i), fun dir handle => ?_⟩
  refine (h.stands dir handle).frame (hv.listed dir handle) (hv.binding dir handle) ?_
  intro b _ hl
  exact ⟨(hv.live _) ▸ hl, hv.stream dir b⟩

theorem makeDevice (h : Agrees s l) (device : δ) :
    Agrees (s.addDevice device).2 (l.note (.deviceMade (s.addDevice device).1 device)) := by
  refine ⟨h.tied.addDevice device, ?_, ?_⟩
  · intro i
    rw [deviceAt_addDevice, h.device]
    rfl
  · intro dir handle
    refine (h.stands dir handle).frame (by simp) (by simp) ?_
    intro b hb hl
    have hk : s.isKnown b.device := h.tied.known dir (.handle handle) b hb
    have hne : b.device ≠ s.devices.next := by
      intro he
      rw [he, isKnown_next] at hk
      cases hk
    exact ⟨by simpa [isLive_addDevice, hne] using hl, by simp⟩

theorem freeDevice (h : Agrees s l) (index : Nat) :
    Agrees (s.freeDevice index).2 (l.note (.deviceFreed index)) := by
  refine ⟨h.tied.freeDevice index, ?_, ?_⟩
  · intro i
    rw [deviceAt_freeDevice, h.device]
    rfl
  · intro dir handle
    refine (h.stands dir handle).frame (by simp) (by simp) ?_
    intro b _ hl
    rw [isLive_freeDevice] at hl
    have hne : b.device ≠ index := by
      intro he
      simp [he] at hl
    rw [streamAt_freeDevice, if_neg hne]
    exact ⟨by simpa [hne] using hl, rfl⟩

theorem makeStream (h : Agrees s l) (dir : Direction) :
    Agrees (s.makeStream dir).2 (l.note (.streamMade dir (s.makeStream dir).1)) := by
  refine ⟨h.tied.makeStream dir, h.device, ?_⟩
  intro dir' handle'
  show Stands _ dir' handle' ((l.put dir (s.makeStream dir).1 .unattached).standingOf dir' handle')
  by_cases he : dir' = dir ∧ handle' = (s.makeStream dir).1
  · obtain ⟨rfl, rfl⟩ := he
    rw [Ledger.standingOf_put_self]
    have hnone : s.bindingOf dir' (s.handles.get dir').next = none := by
      unfold bindingOf
      rw [HandleTable.row?_next]
      rfl
    refine ⟨?_, ?_⟩
    · rw [isListed_makeStream]
      simp [Session.makeStream, HandleTable.insert]
    · rw [bindingOf_makeStream]
      exact hnone
  · rw [Ledger.standingOf_put_of_ne l _ he]
    refine (h.stands dir' handle').frame ?_ (by simp) fun b _ hl => ⟨by simpa using hl, by simp⟩
    have hne : ¬ (dir' = dir ∧ handle' = (s.handles.get dir).next) := he
    simp [isListed_makeStream, hne]

/-- The place that a free vacates is nobody else's. -/
theorem freeStream (h : Agrees s l) (dir : Direction) (handle : Nat) :
    Agrees (s.freeStream dir handle).2 (l.note (.streamFreed dir handle)) := by
  rcases unlistStream_cases s dir handle with ⟨-, hu⟩ | ⟨hl, hu⟩
  · have hs₁ : { s with handles := s.handles.set dir ((s.handles.get dir).remove handle).2 } =
        (s.unlistStream dir handle).2 := by rw [hu]
    have hend : (s.freeStream dir handle).2 =
        ((s.unlistStream dir handle).2.releaseStream dir handle).2.vacate dir
          (s.bindingOf dir handle) := by
      unfold Session.freeStream
      rw [hu]
      show Session.vacate _ dir (releaseStream _ dir handle).1 = _
      rw [hs₁, releaseStream_fst, bindingOf_unlistStream]
    rw [hend]
    constructor
    case tied =>
      have hfree : Held.nothing dir 0 = none := rfl
      have ht := ((h.tied.unlistStream dir handle).releaseStream hfree handle).vacate dir 0
      have hnothing : Held.nothing.set dir 0 none = Held.nothing := Held.set_eq_self rfl
      rw [Held.set_set, hnothing, releaseStream_fst, bindingOf_unlistStream] at ht
      simpa [Held.set] using ht
    case device =>
      intro i
      show deviceAt _ i = l.device i
      simpa using h.device i
    case stands =>
      intro dir' handle'
      show Stands _ dir' handle' ((l.put dir handle .absent).standingOf dir' handle')
      by_cases he : dir' = dir ∧ handle' = handle
      · obtain ⟨rfl, rfl⟩ := he
        rw [Ledger.standingOf_put_self]
        show isListed _ dir' handle' = false
        simp [isListed_unlistStream]
      · rw [Ledger.standingOf_put_of_ne l _ he]
        refine (h.stands dir' handle').frame (by simp [isListed_unlistStream, he])
          (by simp [bindingOf_releaseStream, he]) ?_
        intro b hb hlive
        have hlive' : s.isLive b.device := by simpa using hlive
        refine ⟨hlive', ?_⟩
        rw [streamAt_vacate, if_neg (h.tied.not_shared he hb hlive')]
        simp
  · have hend : (s.freeStream dir handle).2 = s := by
      unfold Session.freeStream
      rw [hu]
    rw [hend]
    refine ⟨h.tied, h.device, fun dir' handle' => ?_⟩
    show Stands _ dir' handle' ((l.put dir handle .absent).standingOf dir' handle')
    by_cases he : dir' = dir ∧ handle' = handle
    · obtain ⟨rfl, rfl⟩ := he
      rw [Ledger.standingOf_put_self]
      exact hl
    · rw [Ledger.standingOf_put_of_ne l _ he]
      exact h.stands dir' handle'

/-- The place that a commit takes is nobody else's, and nor is the one it vacates. -/
theorem of_committed {dir : Direction} {index handle offset : Nat} {stream : σ dir}
    (h : Agrees s l) (hk : s.isKnown index) (hr : s.isReleased dir handle = false)
    (hc : Committed s s' dir index handle offset stream) :
    Agrees s' (l.note (.attached dir index handle stream)) := by
  have hothers : ∀ dir' handle', ¬ (dir' = dir ∧ handle' = handle) →
      s'.Stands dir' handle' (l.standingOf dir' handle') := by
    intro dir' handle' he
    refine (h.stands dir' handle').frame (hc.listed dir' handle')
      ((hc.binding dir' handle').trans (if_neg he)) ?_
    intro b hb hlive
    rw [hc.live] at hlive
    have hkept := h.tied.not_shared he hb hlive
    have hnew : ¬ (dir' = dir ∧ b = ⟨index, offset⟩) := by
      rintro ⟨rfl, rfl⟩
      have ho := h.tied.occupied dir' (.handle handle') _ hb hlive
      have hv := hc.vacant
      rw [streamAt_vacate, if_neg hkept] at hv
      rw [hv] at ho
      cases ho
    refine ⟨hlive, ?_⟩
    rw [hc.other dir' b hnew, streamAt_vacate, if_neg hkept]
  have hself := h.stands dir handle
  have hfree : Held.nothing dir 0 = none := rfl
  have htied := h.tied.of_committed hfree hk hr hc
  have hdevice : ∀ i, s'.deviceAt i = l.device i := fun i => (hc.device i).trans (h.device i)
  show Agrees s' (match l.standingOf dir handle with
    | .absent => l
    | _ => l.put dir handle (.attached index stream))
  cases hx : l.standingOf dir handle with
  | absent =>
    refine ⟨htied, hdevice, fun dir' handle' => ?_⟩
    by_cases he : dir' = dir ∧ handle' = handle
    · obtain ⟨rfl, rfl⟩ := he
      rw [hx] at hself ⊢
      exact (hc.listed dir' handle').trans hself
    · exact hothers dir' handle' he
  | _ =>
    refine ⟨htied, hdevice, fun dir' handle' => ?_⟩
    by_cases he : dir' = dir ∧ handle' = handle
    · obtain ⟨rfl, rfl⟩ := he
      rw [hx] at hself
      rw [Ledger.standingOf_put_self]
      refine ⟨(hc.listed dir' handle').trans hself.1, offset, ?_, fun hl => ?_⟩
      · rw [hc.binding, if_pos ⟨rfl, rfl⟩]
      · rw [hc.live] at hl
        exact hc.self hl
    · rw [Ledger.standingOf_put_of_ne l _ he]
      exact hothers dir' handle' he

theorem deviceCall (h : Agrees s l) (index : Nat) (f : δ → Except Fault β × δ) :
    Agrees (s.deviceCall index f).2 (l.note (.deviceCalled index fun device => (f device).2)) := by
  have hv := sameView_deviceCall s index f
  refine ⟨h.tied.of_sameView hv, fun i => ?_, fun dir handle => ?_⟩
  · rw [deviceAt_deviceCall, h.device]
    show _ = (l.setDevice index _).device i
    rw [Ledger.device_setDevice]
    split
    · rename_i hi
      rw [hi]
    · rfl
  · refine (h.stands dir handle).frame (hv.listed dir handle) (hv.binding dir handle) ?_
    intro b _ hl
    exact ⟨(hv.live _) ▸ hl, hv.stream dir b⟩

theorem clear (h : Agrees s l) : Agrees s.clear (l.note .cleared) := by
  refine ⟨h.tied.clear, fun i => deviceAt_clear s i, fun dir handle => ?_⟩
  show Stands _ dir handle (Ledger.empty.standingOf dir handle)
  rw [Ledger.standingOf_empty]
  exact isListed_clear s dir handle

/-- What the ledger says a handle leads to is found through its binding. -/
theorem found {dir : Direction} {handle index : Nat} {device : δ} {stream : σ dir}
    (h : Agrees s l) (hreach : l.reach dir handle = some (index, device, stream)) :
    s.isListed dir handle ∧ ∃ offset r, s.bindingOf dir handle = some ⟨index, offset⟩ ∧
      s.deviceRecord index = .ok r ∧ r.device = device ∧
      s.streamAt dir ⟨index, offset⟩ = some stream := by
  have hstands := h.stands dir handle
  unfold Ledger.reach at hreach
  cases hx : l.standingOf dir handle with
  | absent => rw [hx] at hreach; cases hreach
  | unattached => rw [hx] at hreach; cases hreach
  | attached index' stream' =>
    rw [hx] at hreach hstands
    obtain ⟨device', hdevice, he⟩ := Option.map_eq_some_iff.1 hreach
    cases he
    obtain ⟨hlisted, offset, hbind, hstream⟩ := hstands
    rw [← h.device] at hdevice
    unfold deviceAt at hdevice
    obtain ⟨r, hr, hrd⟩ := Option.map_eq_some_iff.1 hdevice
    have hrecord := deviceRecord_eq_ok_iff.2 hr
    have hlive : s.isLive index := by
      unfold isLive HandleTable.contains
      rw [hr]
      rfl
    exact ⟨hlisted, offset, r, hbind, hrecord, hrd, hstream hlive⟩

/-- Where the ledger knows of no stream, none is found. -/
theorem not_found {dir : Direction} {handle : Nat} (h : Agrees s l)
    (hreach : l.reach dir handle = none) (hl : s.isListed dir handle) (b : Binding)
    (hb : s.bindingOf dir handle = some b) : s.streamAt dir b = none := by
  have hstands := h.stands dir handle
  unfold Ledger.reach at hreach
  cases hx : l.standingOf dir handle with
  | absent =>
    rw [hx] at hstands
    rw [show s.isListed dir handle = false from hstands] at hl
    cases hl
  | unattached =>
    rw [hx] at hstands
    rw [hstands.2] at hb
    cases hb
  | attached index stream =>
    rw [hx] at hreach hstands
    obtain ⟨-, offset, hbind, -⟩ := hstands
    rw [hbind] at hb
    cases hb
    apply streamAt_of_not_isLive
    rw [isLive_eq_isSome_deviceAt, h.device, Option.map_eq_none_iff.1 hreach]
    rfl

/-- A call that runs changes one stream, and the others are elsewhere. -/
theorem streamCall (h : Agrees s l) (dir : Direction) (handle : Nat)
    (f : δ → σ dir → (Except Fault β × ω) × δ × σ dir) :
    Agrees (s.streamRun dir handle f).2
      (l.note (.streamCalled dir handle fun device stream => (f device stream).2)) := by
  show Agrees _ (match l.reach dir handle with
    | none => l
    | some (index, device, stream) =>
      (l.setDevice index (some (f device stream).2.1)).put dir handle
        (.attached index (f device stream).2.2))
  cases hreach : l.reach dir handle with
  | none =>
    obtain ⟨-, hv, hd⟩ := streamRun_unreached f (h.not_found hreach)
    exact h.of_sameView hv hd
  | some found =>
    obtain ⟨index, device, stream⟩ := found
    obtain ⟨hl, offset, r, hb, hr, rfl, hs⟩ := h.found hreach
    obtain ⟨-, hp⟩ := streamRun_reached f hl hb hr hs
    refine ⟨h.tied.of_streamPut hs hp, ?_, ?_⟩
    · intro i
      rw [hp.device, h.device]
      rfl
    · intro dir' handle'
      by_cases he : dir' = dir ∧ handle' = handle
      · obtain ⟨rfl, rfl⟩ := he
        rw [Ledger.standingOf_put_self]
        exact ⟨(hp.listed dir' handle').trans hl, offset, (hp.binding dir' handle').trans hb,
          fun _ => hp.self⟩
      · rw [Ledger.standingOf_put_of_ne _ _ he, Ledger.standingOf_setDevice]
        refine (h.stands dir' handle').frame (hp.listed dir' handle') (hp.binding dir' handle') ?_
        intro b hb' hlive
        rw [hp.live] at hlive
        refine ⟨hlive, hp.other dir' b ?_⟩
        rintro ⟨rfl, rfl⟩
        exact h.tied.not_shared he hb' hlive ⟨rfl, hb⟩

end Agrees

/-! ## Runs -/

/-- A number that was given out stays so. -/
theorem isKnown_commit {s : Session δ σ} {dir : Direction} {index handle : Nat} {stream : σ dir}
    (hk : s.isKnown index) (i : Nat) :
    (s.commit dir index handle stream).2.isKnown i = s.isKnown i := by
  rcases commit_cases s dir index handle stream hk with ⟨-, h⟩ | ⟨-, h⟩ | ⟨-, offset, s', h, hc⟩
  · rw [h]
  · rw [h]
  · rw [h]
    exact hc.known i

/-- An attach, given that what its build has called is in order. -/
theorem agrees_attach {s s' : Session δ σ} {l : Ledger δ σ} (dir : Direction)
    (index handle : Nat) (built : Except Fault (σ dir)) (hk : s'.isKnown index) (h : Agrees s' l)
    (hstart : s.resolveAttach dir index handle = .ok ()) :
    Agrees (s.attach dir index handle fun _ => (built, s')).2
        (Ledger.read (attachedEvents dir index handle built
          (s.attach dir index handle fun _ => (built, s')).1) l) ∧
      ∀ i, (s.attach dir index handle fun _ => (built, s')).2.isKnown i = s'.isKnown i := by
  have hv := sameView_recordOnDevice s' index (guardedResult built)
  have hrecorded := h.of_sameView hv fun i => deviceAt_recordOnDevice s' index i _
  unfold attach
  simp only [hstart]
  cases built with
  | error f => exact ⟨hrecorded, hv.known⟩
  | ok stream =>
    have hk' : (s'.recordOnDevice index (guardedResult (.ok stream))).isKnown index :=
      (hv.known index).trans hk
    refine ⟨?_, fun i => (isKnown_commit hk' i).trans (hv.known i)⟩
    show Agrees (commit _ dir index handle stream).2 _
    rcases commit_cases _ dir index handle stream hk' with
      ⟨-, hc⟩ | ⟨-, hc⟩ | ⟨hr, offset, s'', hc, hcommitted⟩
    · simp only [guardedResult] at hc ⊢
      rw [hc]
      exact hrecorded
    · simp only [guardedResult] at hc ⊢
      rw [hc]
      exact hrecorded
    · have hend := hrecorded.of_committed hk' hr hcommitted
      simp only [guardedResult] at hc ⊢
      rw [hc]
      exact hend

mutual

/-- Every operation keeps session and ledger in agreement. -/
theorem agrees_run (op : Op δ σ) (s : Session δ σ) (l : Ledger δ σ) (h : Agrees s l) :
    Agrees (op.run s).2 (Ledger.read (op.run s).1 l) ∧
      ∀ i, s.isKnown i → (op.run s).2.isKnown i := by
  match op with
  | .makeDevice (.ok device) =>
    refine ⟨h.makeDevice device, fun i hi => ?_⟩
    show (s.addDevice device).2.isKnown i
    rw [isKnown_addDevice, hi]
    simp
  | .makeDevice (.error f) => exact ⟨h, fun _ hi => hi⟩
  | .freeDevice index => exact ⟨h.freeDevice index, fun i hi => by simpa [Op.run] using hi⟩
  | .makeStream dir => exact ⟨h.makeStream dir, fun i hi => by simpa [Op.run] using hi⟩
  | .freeStream dir handle =>
    refine ⟨h.freeStream dir handle, fun i hi => ?_⟩
    exact (isKnown_freeStream s dir handle i).trans hi
  | .attach dir index handle during built =>
    unfold Op.run
    cases hstart : s.resolveAttach dir index handle with
    | error e =>
      have hend : (s.attach dir index handle fun _ =>
          (built (runAll during s).2, (runAll during s).2)).2 = s := by
        unfold attach
        rw [hstart]
      simp only [hend]
      exact ⟨h, fun _ hi => hi⟩
    | ok =>
      obtain ⟨hagrees, hknown⟩ := agrees_runAll during s l h
      have hk : (runAll during s).2.isKnown index :=
        hknown index (isKnown_of_isLive (resolveAttach_eq_ok_iff.1 hstart).1)
      obtain ⟨hend, hsame⟩ :=
        agrees_attach dir index handle (built (runAll during s).2) hk hagrees hstart
      rw [Ledger.read_append]
      exact ⟨hend, fun i hi => (hsame i).trans (hknown i hi)⟩
  | .deviceCall index f =>
    exact ⟨h.deviceCall index f, fun i hi => ((sameView_deviceCall s index f).known i).trans hi⟩
  | .streamCall dir handle f =>
    refine ⟨h.streamCall dir handle f, fun i hi => ?_⟩
    rcases streamRun_cases s dir handle f with ⟨b, v, device, v', -, hp⟩ | hv
    · exact (hp.known i).trans hi
    · exact (hv.known i).trans hi
  | .clear => exact ⟨h.clear, fun i hi => by simpa [Op.run] using hi⟩

theorem agrees_runAll (ops : List (Op δ σ)) (s : Session δ σ) (l : Ledger δ σ) (h : Agrees s l) :
    Agrees (runAll ops s).2 (Ledger.read (runAll ops s).1 l) ∧
      ∀ i, s.isKnown i → (runAll ops s).2.isKnown i := by
  match ops with
  | [] => exact ⟨h, fun _ hi => hi⟩
  | op :: ops =>
    obtain ⟨hfirst, hknown⟩ := agrees_run op s l h
    obtain ⟨hrest, hknown'⟩ := agrees_runAll ops (op.run s).2 _ hfirst
    rw [runAll_cons, Ledger.read_append]
    exact ⟨hrest, fun i hi => hknown' i (hknown i hi)⟩

end

/-- Attaches and frees of other handles, and new handles. -/
def Event.Elsewhere (dir : Direction) (handle : Nat) : Event δ σ → Prop
  | .attached dir' _ handle' _ | .streamMade dir' handle' | .streamFreed dir' handle' =>
    ¬ (dir' = dir ∧ handle' = handle)
  | _ => False

/-- What is done with other handles leaves a handle what it leads to. -/
theorem reach_note_of_elsewhere {dir : Direction} {handle : Nat} (l : Ledger δ σ)
    {e : Event δ σ} (he : e.Elsewhere dir handle) :
    (l.note e).reach dir handle = l.reach dir handle := by
  have hput : ∀ dir' handle' (x : Standing (σ dir')), ¬ (dir' = dir ∧ handle' = handle) →
      (l.put dir' handle' x).reach dir handle = l.reach dir handle := by
    intro dir' handle' x hne
    unfold Ledger.reach
    rw [Ledger.standingOf_put_of_ne l x fun h => hne ⟨h.1.symm, h.2.symm⟩]
    rfl
  cases e with
  | streamMade dir' handle' => exact hput dir' handle' _ he
  | streamFreed dir' handle' => exact hput dir' handle' _ he
  | attached dir' index handle' stream =>
    show Ledger.reach (match l.standingOf dir' handle' with
      | .absent => l
      | _ => l.put dir' handle' (.attached index stream)) dir handle = _
    split
    · rfl
    · exact hput dir' handle' _ he
  | _ => exact he.elim

theorem reach_read_of_elsewhere {dir : Direction} {handle : Nat} (log : List (Event δ σ))
    (l : Ledger δ σ) (hlog : ∀ e ∈ log, e.Elsewhere dir handle) :
    (Ledger.read log l).reach dir handle = l.reach dir handle := by
  induction log generalizing l with
  | nil => rfl
  | cons e log ih =>
    show (Ledger.read log (l.note e)).reach dir handle = _
    rw [ih _ fun e' he' => hlog e' (List.mem_cons_of_mem _ he')]
    exact reach_note_of_elsewhere l (hlog e List.mem_cons_self)

/-- A call through a handle that leads to a stream runs, and on that stream. -/
theorem Agrees.streamRun_reached {s : Session δ σ} {l : Ledger δ σ} {dir : Direction}
    {handle index : Nat} {device : δ} {stream : σ dir} (h : Agrees s l)
    (hreach : l.reach dir handle = some (index, device, stream))
    (f : δ → σ dir → (Except Fault β × ω) × δ × σ dir) :
    (s.streamRun dir handle f).1 =
      (guardedResult (f device stream).1.1, some (f device stream).1.2) := by
  obtain ⟨hl, offset, r, hb, hr, rfl, hs⟩ := h.found hreach
  exact (Session.streamRun_reached f hl hb hr hs).1

/-- A session refines its ledger.  After any run, a call through a handle runs if and only if the
handle leads to a stream in the ledger of the run; it then runs on that stream, whatever was or
will be done with other handles, and otherwise it is refused with the one status. -/
theorem streamRun_eq_reach (ops : List (Op δ σ)) (dir : Direction) (handle : Nat)
    (f : δ → σ dir → (Except Fault β × ω) × δ × σ dir) :
    (∀ index device stream,
      (Ledger.read (runAll ops initial).1 Ledger.empty).reach dir handle =
        some (index, device, stream) →
      ((runAll ops initial).2.streamRun dir handle f).1 =
        (guardedResult (f device stream).1.1, some (f device stream).1.2) ∧
      ∀ others, (∀ e ∈ (runAll others (runAll ops initial).2).1, e.Elsewhere dir handle) →
        ((runAll (ops ++ others) initial).2.streamRun dir handle f).1 =
          (guardedResult (f device stream).1.1, some (f device stream).1.2)) ∧
    ((Ledger.read (runAll ops initial).1 Ledger.empty).reach dir handle = none →
      ∃ e, ((runAll ops initial).2.streamRun dir handle f).1 = (.error e, none) ∧
        e.status = .invalidDevice) := by
  have hagrees : Agrees (runAll ops initial).2 (Ledger.read (runAll ops initial).1 Ledger.empty) :=
    (agrees_runAll ops initial _ agrees_initial).1
  constructor
  · intro index device stream hreach
    refine ⟨hagrees.streamRun_reached hreach f, fun others hothers => ?_⟩
    have hagrees' := (agrees_runAll others _ _ hagrees).1
    have hreach' := (reach_read_of_elsewhere _ _ hothers).trans hreach
    rw [runAll_append]
    exact hagrees'.streamRun_reached hreach' f
  · intro hreach
    exact (streamRun_unreached f (hagrees.not_found hreach)).1

/-- A handle that was attached to a second device keeps its stream when the place it had on the
first one is taken and the handle that took it is freed. -/
theorem reattached_run :
    let ops : List (Op Unit fun _ => Nat) :=
      [.makeDevice (.ok ()), .makeDevice (.ok ()), .makeStream .rx, .makeStream .rx,
        .attach .rx 1 1 [] fun _ => .ok 10, .attach .rx 2 1 [] fun _ => .ok 20,
        .attach .rx 1 2 [] fun _ => .ok 30]
    let call : Unit → Nat → (Except Fault Unit × Nat) × Unit × Nat :=
      fun device stream => ((.ok (), stream), device, stream)
    ((runAll (ops ++ [.freeStream .rx 2]) initial).2.streamRun .rx 1 call).1 =
        (.ok (), some 20) ∧
      ∃ e, ((runAll (ops ++ [.freeDevice 1]) initial).2.streamRun .rx 2 call).1 =
        (.error e, none) ∧ e.status = .invalidDevice := by
  intro ops call
  constructor
  · refine ((streamRun_eq_reach ops .rx 1 call).1 2 () 20 rfl).2 [.freeStream .rx 2] ?_
    intro e he
    cases List.mem_singleton.1 he
    simp [Event.Elsewhere]
  · exact (streamRun_eq_reach (ops ++ [.freeDevice 1]) .rx 2 call).2 rfl

end SoftRadio.Session
