import SoftRadio.Proofs.Session.Numbers
import SoftRadio.Station

/-!
# Operations that fail leave the books as they were

A session keeps books: which devices and handles there are, where each handle is bound, what is on
the places of each device, and which numbers come next.  `Kept` says that two sessions have the same
books.  The texts of the latest calls are not in the books, and devices and streams are in them by
name only: what a driver does to its own device or stream in a call is its own affair.

* `freeDevice_of_not_has` and its like: what is not there is refused, and nothing else happens.
* `attach_of_error`: an attach that fails has at most put down a text with its device.
* `kept_deviceCall`, `kept_streamRun`: calls never touch the books, however they end.
* `Op.kept_of_failure`: nor does any operation that returns an error.
-/

namespace SoftRadio.Session

variable {δ : Type} {σ : Direction → Type} {β ω κ ι : Type}

/-! ## Refusals -/

theorem freeDevice_of_not_has {s : Session δ σ} {index : Nat}
    (h : s.has (.device index) = false) : s.freeDevice index = (.error (.noDevice index), s) := by
  rcases freeDevice_cases s index with ⟨hl, -, -⟩ | ⟨-, hc⟩
  · exact absurd hl (Bool.eq_false_iff.1 h)
  · exact hc

theorem freeStream_of_not_has {s : Session δ σ} {dir : Direction} {handle : Nat}
    (h : s.has (.stream dir handle) = false) :
    s.freeStream dir handle = (.error (.noStreamer dir handle), s) := by
  unfold freeStream
  rcases unlistStream_cases s dir handle with ⟨hl, -⟩ | ⟨-, hc⟩
  · exact absurd hl (Bool.eq_false_iff.1 h)
  · rw [hc]

theorem freeStream_of_has {s : Session δ σ} {dir : Direction} {handle : Nat}
    (h : s.has (.stream dir handle)) : (s.freeStream dir handle).1 = .ok () := by
  unfold freeStream
  rcases unlistStream_cases s dir handle with ⟨-, hc⟩ | ⟨hgone, -⟩
  · rw [hc]
  · exact absurd h (Bool.eq_false_iff.1 hgone)

theorem freeDevice_of_error {s : Session δ σ} {index : Nat} {e : Error}
    (h : (s.freeDevice index).1 = .error e) : (s.freeDevice index).2 = s := by
  rcases freeDevice_cases s index with ⟨-, ⟨device, hok⟩, -⟩ | ⟨-, hc⟩
  · rw [hok] at h
    cases h
  · rw [hc]

theorem freeStream_of_error {s : Session δ σ} {dir : Direction} {handle : Nat} {e : Error}
    (h : (s.freeStream dir handle).1 = .error e) : (s.freeStream dir handle).2 = s := by
  cases hl : s.isListed dir handle with
  | false => rw [freeStream_of_not_has hl]
  | true =>
    rw [freeStream_of_has hl] at h
    cases h

theorem deviceCall_of_not_has {s : Session δ σ} {index : Nat} (h : s.has (.device index) = false)
    (f : δ → Except Fault β × δ) : s.deviceCall index f = (.error (.noDevice index), s) := by
  unfold deviceCall
  rw [deviceRecord_of_not_isLive h]

theorem streamRun_of_not_has {s : Session δ σ} {dir : Direction} {handle : Nat}
    (h : s.has (.stream dir handle) = false)
    (f : δ → σ dir → (Except Fault β × ω) × δ × σ dir) :
    s.streamRun dir handle f = ((.error (.noStreamer dir handle), none), s) := by
  unfold streamRun
  rw [streamRecord_of_not_isListed h]

theorem attach_of_not_has {s : Session δ σ} {dir : Direction} {index handle : Nat}
    (h : s.has (.device index) = false ∨ s.has (.stream dir handle) = false)
    (build : Session δ σ → Except Fault (σ dir) × Session δ σ) :
    ∃ e, s.attach dir index handle build = (.error e, s) ∧ e.status = .invalidDevice := by
  cases hl : s.isLive index with
  | false =>
    refine ⟨.noDevice index, attach_of_resolveAttach_eq_error ?_ build, rfl⟩
    simp [resolveAttach, deviceRecord_of_not_isLive hl, bind, Except.bind]
  | true =>
    have hgone : s.isListed dir handle = false := by
      rcases h with h | h
      · exact absurd hl (Bool.eq_false_iff.1 h)
      · exact h
    obtain ⟨r, hr⟩ := exists_deviceRecord hl
    refine ⟨.noStreamer dir handle, attach_of_resolveAttach_eq_error ?_ build, rfl⟩
    simp [resolveAttach, hr, streamRecord_of_not_isListed hgone, bind, Except.bind]

/-- Who is not there cannot be asked. -/
theorem exists_lastError_of_not_has {x : Party} {s : Session δ σ} (hgone : s.has x = false) :
    ∃ e, e.status = .invalidDevice ∧ s.lastError x = .error e ∧
      ∀ dir handle, x = .stream dir handle → s.streamBinding dir handle = .error e := by
  cases x with
  | device index =>
    refine ⟨.noDevice index, rfl, ?_, nofun⟩
    change s.deviceLastError index = _
    unfold deviceLastError
    rw [deviceRecord_of_not_isLive hgone]
    rfl
  | stream dir handle =>
    refine ⟨.noStreamer dir handle, rfl, ?_, ?_⟩
    · change s.streamLastError dir handle = _
      unfold streamLastError
      rw [streamRecord_of_not_isListed hgone]
      rfl
    · rintro dir handle ⟨⟩
      unfold streamBinding
      rw [streamRecord_of_not_isListed hgone]
      rfl

/-! ## What calls come to -/

theorem guardedResult_eq_ok_iff {x : Except Fault β} {v : β} :
    guardedResult x = .ok v ↔ x = .ok v := by
  cases x <;> simp [guardedResult]

/-- What a call on a device returns comes from the call. -/
theorem exists_of_deviceCall_eq_ok {s : Session δ σ} {index : Nat}
    {f : δ → Except Fault β × δ} {v : β}
    (h : (s.deviceCall index f).1 = .ok v) : ∃ device, (f device).1 = .ok v := by
  unfold deviceCall at h
  split at h
  · cases h
  · exact ⟨_, guardedResult_eq_ok_iff.1 h⟩

/-- What a call on a stream returns comes from the call. -/
theorem exists_of_streamRun_eq_ok {s : Session δ σ} {dir : Direction} {handle : Nat}
    {f : δ → σ dir → (Except Fault β × ω) × δ × σ dir} {v : β}
    (h : (s.streamRun dir handle f).1.1 = .ok v) :
    ∃ device stream, (f device stream).1.1 = .ok v := by
  unfold streamRun at h
  split at h
  · cases h
  · dsimp only at h
    split at h
    · cases h
    · exact ⟨_, _, guardedResult_eq_ok_iff.1 h⟩

/-! ## How operations fail -/

/-- The error of a result, if it is one. -/
def errorOf? : Except Error β → Option Error
  | .ok _ => none
  | .error e => some e

theorem errorOf?_eq_some_iff {result : Except Error β} {e : Error} :
    errorOf? result = some e ↔ result = .error e := by
  cases result <;> simp [errorOf?]

/-- The error that an operation returns to its caller, if it fails. -/
def Op.failure? : Op δ σ → Session δ σ → Option Error
  | .makeDevice opened, _ => errorOf? (guardedResult opened)
  | .freeDevice index, s => errorOf? (s.freeDevice index).1
  | .makeStream _, _ => none
  | .freeStream dir handle, s => errorOf? (s.freeStream dir handle).1
  | .attach dir index handle during built, s =>
    errorOf? (s.attach dir index handle fun _ =>
      (built (runAll during s).2, (runAll during s).2)).1
  | .deviceCall index f, s => errorOf? (s.deviceCall index f).1
  | .streamCall dir handle f, s => errorOf? (s.streamRun dir handle f).1.1
  | .clear, _ => none

/-- An attach whose driver does not use the session. -/
theorem run_attach_nil (dir : Direction) (index handle : Nat)
    (built : Session δ σ → Except Fault (σ dir)) (s : Session δ σ) :
    (Op.run (.attach dir index handle [] built) s).2 =
      (s.attach dir index handle fun _ => (built s, s)).2 := by
  unfold Op.run
  cases hstart : s.resolveAttach dir index handle <;> rfl

/-- The operation does not let its driver use the session. -/
def Op.Plain : Op δ σ → Prop
  | .attach _ _ _ during _ => during = []
  | _ => True

/-- A call may change its device and its stream, but it cannot put others in their place: whatever
names stand for who they are, they stay. -/
def Op.KeepsNames (label : δ → κ) (name : (dir : Direction) → σ dir → ι) : Op δ σ → Prop
  | .deviceCall _ f => ∀ device, label (f device).2 = label device
  | .streamCall dir _ f => ∀ device stream,
    label (f device stream).2.1 = label device ∧ name dir (f device stream).2.2 = name dir stream
  | _ => True

/-! ## The books -/

/-- The places for streams of one direction, vacant ones too, with the names of the streams. -/
def shelfOf (name : (dir : Direction) → σ dir → ι) (dir : Direction) (r : DeviceRecord δ σ) :
    List (Option ι) :=
  (r.slots.get dir).cells.map (Option.map (name dir))

/-- The places of a device, if it is there. -/
def shelf (name : (dir : Direction) → σ dir → ι) (s : Session δ σ) (dir : Direction)
    (index : Nat) : Option (List (Option ι)) :=
  (s.devices.get? index).map (shelfOf name dir)

/-- The same books: counters, devices and handles that are there, places of every device with
their streams, and bindings.  Where devices and streams are named by themselves, nothing at all has
happened to them. -/
structure Kept (label : δ → κ) (name : (dir : Direction) → σ dir → ι) (s s' : Session δ σ) :
    Prop where
  next : ∀ k, s'.next k = s.next k
  has : ∀ x, s'.has x = s.has x
  device : ∀ i, (s'.deviceAt i).map label = (s.deviceAt i).map label
  shelf : ∀ dir i, s'.shelf name dir i = s.shelf name dir i
  binding : ∀ dir handle, s'.bindingOf dir handle = s.bindingOf dir handle

variable {label : δ → κ} {name : (dir : Direction) → σ dir → ι} {s s' s'' : Session δ σ}

theorem Kept.refl (s : Session δ σ) : Kept label name s s :=
  ⟨fun _ => rfl, fun _ => rfl, fun _ => rfl, fun _ _ => rfl, fun _ _ => rfl⟩

theorem Kept.trans (h : Kept label name s s') (h' : Kept label name s' s'') :
    Kept label name s s'' where
  next k := (h'.next k).trans (h.next k)
  has x := (h'.has x).trans (h.has x)
  device i := (h'.device i).trans (h.device i)
  shelf dir i := (h'.shelf dir i).trans (h.shelf dir i)
  binding dir handle := (h'.binding dir handle).trans (h.binding dir handle)

/-- A change of a device that leaves its name and its places alone. -/
theorem kept_modifyDevice (s : Session δ σ) (index : Nat)
    {f : DeviceRecord δ σ → DeviceRecord δ σ}
    (hlabel : ∀ r, s.devices.get? index = some r → label (f r).device = label r.device)
    (hshelf : ∀ r, s.devices.get? index = some r → ∀ dir,
      shelfOf name dir (f r) = shelfOf name dir r) :
    Kept label name s (s.modifyDevice index f) := by
  constructor
  case next => exact (nothingNew_modifyDevice s index f).next
  case has =>
    intro x
    cases x with
    | device i => exact isLive_modifyDevice s index i f
    | stream dir handle => rfl
  case device =>
    intro i
    rw [deviceAt_modifyDevice]
    split
    · rename_i hi
      subst hi
      unfold deviceAt
      cases hr : s.devices.get? i with
      | none => rfl
      | some r => exact congrArg some (hlabel r hr)
    · rfl
  case shelf =>
    intro dir i
    unfold Session.shelf modifyDevice
    simp only [HandleTable.get?_modify]
    split
    · rename_i hi
      subst hi
      cases hr : s.devices.get? i with
      | none => rfl
      | some r => exact congrArg some (hshelf r hr dir)
    · rfl
  case binding => exact fun _ _ => rfl

theorem kept_recordOnDevice (s : Session δ σ) (index : Nat) (result : Except Error β) :
    Kept label name s (s.recordOnDevice index result) :=
  kept_modifyDevice s index (fun _ _ => rfl) fun _ _ _ => rfl

/-- The text that a call puts down with its handle. -/
theorem kept_recordOnStream (s : Session δ σ) (dir : Direction) (handle : Nat)
    (result : Except Error β) :
    Kept label name s
      (s.modifyStream dir handle fun r => { r with lastError := ErrorSlot.ofResult result }) := by
  constructor
  case next => exact (nothingNew_modifyStream s dir handle _).next
  case has =>
    intro x
    cases x with
    | device i => rfl
    | stream dir' handle' => exact isListed_modifyStream s dir handle _ dir' handle'
  case device | shelf => intros; rfl
  case binding =>
    intro dir' handle'
    rw [bindingOf_modifyStream]
    split <;> rfl

/-- A stream that is replaced by one of its name. -/
theorem shelfOf_update {dir : Direction} {slots : Slots (σ dir)} {offset : Nat} {v w : σ dir}
    (hw : slots.get? offset = some w) (hname : name dir v = name dir w) :
    (slots.update offset v).cells.map (Option.map (name dir)) =
      slots.cells.map (Option.map (name dir)) := by
  unfold Slots.update
  rw [hw]
  simp only [Option.isSome_some, if_true, List.map_set, Option.map_some]
  have hcell : slots.cells[offset]? = some (some w) := by
    unfold Slots.get? at hw
    cases hc : slots.cells[offset]? with
    | none => rw [hc] at hw; cases hw
    | some cell => rw [hc] at hw; exact congrArg some hw
  apply List.ext_getElem?
  intro i
  rw [List.getElem?_set]
  split
  · rename_i hi
    subst hi
    have hlt : offset < slots.cells.length := (List.getElem?_eq_some_iff.1 hcell).1
    rw [List.length_map, if_pos hlt, List.getElem?_map, hcell, hname]
    rfl
  · rfl

/-! ## Calls and attaches -/

/-- A record that leads to a stream is bound to the place where it is. -/
theorem resolveStream_eq_ok {dir : Direction} {record : StreamRecord} {b : Binding} {device : δ}
    {stream : σ dir} (h : s.resolveStream dir record = .ok (b, device, stream)) :
    ∃ r, s.devices.get? b.device = some r ∧ r.device = device ∧
      (r.slots.get dir).get? b.offset = some stream := by
  unfold resolveStream at h
  cases hb : record.binding with
  | none => rw [hb] at h; cases h
  | some b' =>
    rw [hb] at h
    obtain ⟨r, hr, h⟩ := bind_eq_ok_iff.1 h
    cases hs : (r.slots.get dir).get? b'.offset with
    | none => rw [hs] at h; cases h
    | some stream' =>
      rw [hs] at h
      cases pure_eq_ok_iff.1 h
      exact ⟨r, deviceRecord_eq_ok_iff.1 hr, rfl, hs⟩

theorem kept_deviceCall (s : Session δ σ) (index : Nat) {f : δ → Except Fault β × δ}
    (hf : ∀ device, label (f device).2 = label device) :
    Kept label name s (s.deviceCall index f).2 := by
  unfold deviceCall
  cases hd : s.deviceRecord index with
  | error e => exact .refl s
  | ok r =>
    have hr := deviceRecord_eq_ok_iff.1 hd
    have hput : Kept label name s
        (s.modifyDevice index fun q => { q with device := (f r.device).2 }) := by
      refine kept_modifyDevice s index (fun q hq => ?_) fun _ _ _ => rfl
      rw [hr] at hq
      cases hq
      exact hf r.device
    exact hput.trans (kept_recordOnDevice _ index (guardedResult (f r.device).1))

theorem kept_streamRun (s : Session δ σ) (dir : Direction) (handle : Nat)
    {f : δ → σ dir → (Except Fault β × ω) × δ × σ dir}
    (hf : ∀ device stream, label (f device stream).2.1 = label device ∧
      name dir (f device stream).2.2 = name dir stream) :
    Kept label name s (s.streamRun dir handle f).2 := by
  unfold streamRun
  cases s.streamRecord dir handle with
  | error e => exact .refl s
  | ok record =>
    dsimp only
    cases hres : s.resolveStream dir record with
    | error e => exact kept_recordOnStream s dir handle (.error e : Except Error β)
    | ok found =>
      obtain ⟨b, device, stream⟩ := found
      obtain ⟨r, hr, rfl, hs⟩ := resolveStream_eq_ok hres
      obtain ⟨hlabel, hname⟩ := hf r.device stream
      have hput : Kept label name s (s.modifyDevice b.device fun q =>
          { q with
            device := (f r.device stream).2.1
            slots := q.slots.set dir
              ((q.slots.get dir).update b.offset (f r.device stream).2.2) }) := by
        refine kept_modifyDevice s b.device (fun q hq => ?_) fun q hq dir' => ?_
        · rw [hr] at hq
          cases hq
          exact hlabel
        · rw [hr] at hq
          cases hq
          unfold shelfOf
          by_cases hd : dir' = dir
          · subst hd
            dsimp only
            rw [Sides.get_set_self]
            exact shelfOf_update hs hname
          · dsimp only
            rw [Sides.get_set_of_ne _ _ hd]
      exact hput.trans (kept_recordOnStream _ dir handle (guardedResult (f r.device stream).1.1))

/-- An attach that fails, and whose driver does not use the session, has at most put down a text
with its device. -/
theorem attach_of_error {dir : Direction} {index handle : Nat} {built : Except Fault (σ dir)}
    {e : Error} (h : (s.attach dir index handle fun _ => (built, s)).1 = .error e) :
    (s.attach dir index handle fun _ => (built, s)).2 = s ∨
      (s.attach dir index handle fun _ => (built, s)).2 =
        s.recordOnDevice index (guardedResult built) := by
  cases hstart : s.resolveAttach dir index handle with
  | error e' =>
    left
    rw [attach_of_resolveAttach_eq_error hstart]
  | ok =>
    right
    have hlive := (resolveAttach_eq_ok_iff.1 hstart).1
    unfold attach at h ⊢
    rw [hstart] at h ⊢
    dsimp only at h ⊢
    cases hb : guardedResult built with
    | error f => rfl
    | ok stream =>
      rw [hb] at h
      have hknown : (s.recordOnDevice index (.ok stream)).isKnown index :=
        ((sameView_recordOnDevice s index _).known index).trans (isKnown_of_isLive hlive)
      rcases commit_cases (s.recordOnDevice index (.ok stream)) dir index handle stream hknown with
        ⟨-, hc⟩ | ⟨-, hc⟩ | ⟨-, offset, s', hc, -⟩
      · exact congrArg Prod.snd hc
      · exact congrArg Prod.snd hc
      · dsimp only at h
        rw [hc] at h
        cases h

/-- What a failed attach leaves: a handle that led to a stream still leads to it. -/
theorem streamRun_of_attach_of_error {dir : Direction} {index handle : Nat}
    {built : Except Fault (σ dir)} {e : Error}
    (h : (s.attach dir index handle fun _ => (built, s)).1 = .error e)
    {dir' : Direction} {handle' : Nat} {b : Binding} {device : δ} {stream : σ dir'}
    (hlisted : s.isListed dir' handle') (hb : s.bindingOf dir' handle' = some b)
    (hdevice : s.deviceAt b.device = some device) (hs : s.streamAt dir' b = some stream)
    (f : δ → σ dir' → (Except Fault β × ω) × δ × σ dir') :
    ((s.attach dir index handle fun _ => (built, s)).2.streamRun dir' handle' f).1 =
      (guardedResult (f device stream).1.1, some (f device stream).1.2) := by
  have hview : SameView s (s.attach dir index handle fun _ => (built, s)).2 ∧
      ∀ i, (s.attach dir index handle fun _ => (built, s)).2.deviceAt i = s.deviceAt i := by
    rcases attach_of_error h with hend | hend
    · rw [hend]
      exact ⟨.refl s, fun _ => rfl⟩
    · rw [hend]
      exact ⟨sameView_recordOnDevice s index _, fun i => deviceAt_recordOnDevice s index i _⟩
  obtain ⟨hsame, hdevices⟩ := hview
  generalize (s.attach dir index handle fun _ => (built, s)).2 = s' at hsame hdevices ⊢
  rw [← hdevices] at hdevice
  obtain ⟨r, hr, rfl⟩ := Option.map_eq_some_iff.1 hdevice
  rw [← hsame.listed] at hlisted
  rw [← hsame.binding] at hb
  rw [← hsame.stream] at hs
  exact (streamRun_reached f hlisted hb (deviceRecord_eq_ok_iff.2 hr) hs).1

/-! ## Failures -/

/-- A device that could not be opened leaves the station as it was. -/
theorem makeDevice_of_error {α : Type} [Scalar α] (st : Station α) (args : String) {e : Error}
    (h : (st.makeDevice args).1 = .error e) : (st.makeDevice args).2 = st := by
  unfold Station.makeDevice at h ⊢
  dsimp only at h ⊢
  split at h
  · rfl
  · cases h

/-- Whatever operation returns an error, for whatever reason, leaves the books as they were, if
its driver does not use the session meanwhile.  So a handle whose attach has failed still leads to
the stream that it was attached to before, and a device that could not be opened takes no index. -/
theorem Op.kept_of_failure (label : δ → κ) (name : (dir : Direction) → σ dir → ι) (op : Op δ σ)
    (s : Session δ σ) {e : Error} (hplain : op.Plain) (hnames : op.KeepsNames label name)
    (hfail : op.failure? s = some e) :
    Kept label name s (op.run s).2 ∧
    (∀ dir index handle built, op = .attach dir index handle [] built →
      ∀ b device stream, s.isListed dir handle → s.bindingOf dir handle = some b →
        s.deviceAt b.device = some device → s.streamAt dir b = some stream →
        (op.run s).2.bindingOf dir handle = some b ∧
        ∀ {β ω : Type} (f : δ → σ dir → (Except Fault β × ω) × δ × σ dir),
          ((op.run s).2.streamRun dir handle f).1 =
            (guardedResult (f device stream).1.1, some (f device stream).1.2)) ∧
    ∀ {α : Type} [Scalar α] (st : Station α) (args : String) (e : Error),
      (st.makeDevice args).1 = .error e → (st.makeDevice args).2 = st := by
  have hkept : Kept label name s (op.run s).2 := by
    cases op with
    | makeDevice opened =>
      cases opened with
      | ok device => cases hfail
      | error f => exact .refl s
    | freeDevice index =>
      rw [Op.run, freeDevice_of_error (errorOf?_eq_some_iff.1 hfail)]
      exact .refl s
    | makeStream dir => cases hfail
    | freeStream dir handle =>
      rw [Op.run, freeStream_of_error (errorOf?_eq_some_iff.1 hfail)]
      exact .refl s
    | attach dir index handle during built =>
      have hnone : during = [] := hplain
      subst hnone
      rw [run_attach_nil]
      have herror : (s.attach dir index handle fun _ => (built s, s)).1 = .error e :=
        errorOf?_eq_some_iff.1 hfail
      rcases attach_of_error herror with hend | hend
      · rw [hend]
        exact .refl s
      · rw [hend]
        exact kept_recordOnDevice s index (guardedResult (built s))
    | deviceCall index f => exact kept_deviceCall s index hnames
    | streamCall dir handle f => exact kept_streamRun s dir handle hnames
    | clear => cases hfail
  refine ⟨hkept, ?_, ?_⟩
  · rintro dir index handle built rfl b device stream hlisted hb hdevice hs
    refine ⟨(hkept.binding dir handle).trans hb, fun f => ?_⟩
    rw [run_attach_nil]
    exact streamRun_of_attach_of_error (errorOf?_eq_some_iff.1 hfail) hlisted hb hdevice hs f
  · exact fun st args _ herror => makeDevice_of_error st args herror

/-- A handle leads to its stream after its next attach has crashed. -/
theorem kept_of_crashed_attach :
    let s : Session Unit fun _ => Nat :=
      (runAll [.makeDevice (.ok ()), .makeStream .rx, .attach .rx 1 1 [] fun _ => .ok 10] initial).2
    let op : Op Unit fun _ => Nat := .attach .rx 1 1 [] fun _ => crash "no buffers"
    op.failure? s = some (Fault.crash "no buffers").guarded ∧
      Kept (fun device => device) (fun _ stream => stream) s (op.run s).2 ∧
      ((op.run s).2.streamRun .rx 1 fun device stream => ((.ok (), stream), device, stream)).1 =
        (.ok (), some 10) := by
  intro s op
  have hfail : op.failure? s = some (Fault.crash "no buffers").guarded := by decide
  obtain ⟨hkept, hbound, -⟩ :=
    Op.kept_of_failure (fun device => device) (fun _ stream => stream) op s rfl trivial hfail
  obtain ⟨-, hcall⟩ := hbound .rx 1 1 _ rfl ⟨1, 0⟩ () 10 (by decide) (by decide) (by decide)
    (by decide)
  exact ⟨hfail, hkept, hcall fun device stream => ((.ok (), stream), device, stream)⟩

end SoftRadio.Session
