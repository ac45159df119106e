import SoftRadio.Proofs.Session.View

/-!
# What the operations on streams do

Three operations touch what a handle leads to, and each is described by one structure over the
questions of a session: a commit that goes through (`Committed`), a call that has run on a
stream (`StreamPut`), and all that leaves every answer as it was (`SameView`).  `commit_cases`,
`streamRun_reached` and `streamRun_unreached` say when each of them happens.
-/

namespace SoftRadio.Session

variable {δ : Type} {σ : Direction → Type} {β ω : Type}

/-! ## Committing an attach -/

/-- What a commit that goes through has done: the place the handle was bound to is vacated, the
stream is at a place that was vacant then, and the handle is bound to that place. -/
structure Committed (s s' : Session δ σ) (dir : Direction) (index handle offset : Nat)
    (stream : σ dir) : Prop where
  known : ∀ i, s'.isKnown i = s.isKnown i
  live : ∀ i, s'.isLive i = s.isLive i
  device : ∀ i, s'.deviceAt i = s.deviceAt i
  issued : ∀ dir' handle', s'.isIssued dir' handle' = s.isIssued dir' handle'
  listed : ∀ dir' handle', s'.isListed dir' handle' = s.isListed dir' handle'
  released : ∀ dir' handle', s'.isReleased dir' handle' = s.isReleased dir' handle'
  binding : ∀ dir' handle', s'.bindingOf dir' handle' =
    if dir' = dir ∧ handle' = handle then some ⟨index, offset⟩ else s.bindingOf dir' handle'
  vacant : (s.vacate dir (s.bindingOf dir handle)).streamAt dir ⟨index, offset⟩ = none
  self : s.isLive index → s'.streamAt dir ⟨index, offset⟩ = some stream
  other : ∀ dir' b, ¬ (dir' = dir ∧ b = ⟨index, offset⟩) →
    s'.streamAt dir' b = (s.vacate dir (s.bindingOf dir handle)).streamAt dir' b

/-- A stream put into a place of a known device is there if the device is. -/
theorem committed_attach (s : Session δ σ) (dir : Direction) (index handle : Nat)
    (stream : σ dir) {row : HandleRow StreamRecord} {drow : HandleRow (DeviceRecord δ σ)}
    (hrow : (s.handles.get dir).row? handle = some row)
    (hdrow : (s.vacate dir row.record.binding).devices.row? index = some drow) :
    Committed s
      (((s.vacate dir row.record.binding).modifyDevice index fun r =>
          { r with
            slots := r.slots.set dir ((drow.record.slots.get dir).attach stream).2 }).modifyStream
        dir handle fun r =>
          { r with binding := some ⟨index, ((drow.record.slots.get dir).attach stream).1⟩ })
      dir index handle ((drow.record.slots.get dir).attach stream).1 stream := by
  have hbinding : s.bindingOf dir handle = row.record.binding := by
    unfold bindingOf
    rw [hrow]
    rfl
  have hget : ∀ r, (s.vacate dir row.record.binding).devices.get? index = some r →
      r = drow.record := by
    intro r hr
    unfold HandleTable.get? at hr
    rw [hdrow, Option.bind_some] at hr
    split at hr
    · exact (Option.some.inj hr).symm
    · cases hr
  constructor
  case known => intro i; simp
  case live => intro i; simp
  case device =>
    intro i
    rw [deviceAt_modifyStream, ← deviceAt_vacate s dir row.record.binding]
    exact deviceAt_modifyDevice_of_device _ index i fun _ => rfl
  case issued => intro dir' handle'; simp
  case listed => intro dir' handle'; simp
  case released =>
    intro dir' handle'
    rw [isReleased_modifyStream]
    split
    · rename_i h
      obtain ⟨rfl, rfl⟩ := h
      simp only [isReleased, modifyDevice, handles_vacate]
    · simp
  case binding =>
    intro dir' handle'
    rw [bindingOf_modifyStream]
    split
    · rename_i h
      obtain ⟨rfl, rfl⟩ := h
      simp only [modifyDevice, handles_vacate]
      rw [hrow]
      rfl
    · simp
  case vacant =>
    rw [hbinding]
    cases hd : (s.vacate dir row.record.binding).devices.get? index with
    | none =>
      unfold streamAt
      rw [hd]
      rfl
    | some r =>
      unfold streamAt
      rw [hd, Option.bind_some, hget r hd]
      exact Slots.get?_attach_fst _ _
  case self =>
    intro hl
    rw [← isLive_vacate s dir row.record.binding] at hl
    obtain ⟨r, hr⟩ := Option.isSome_iff_exists.1 hl
    rw [streamAt_modifyStream, streamAt_modifyDevice_self _ index fun _ => rfl, if_pos rfl, hr]
    simp [Slots.get?_attach]
  case other =>
    intro dir' b hne
    rw [hbinding, streamAt_modifyStream]
    by_cases hdir : dir' = dir
    · subst hdir
      rw [streamAt_modifyDevice_self _ index fun _ => rfl]
      by_cases hb : b.device = index
      · have ho : b.offset ≠ ((drow.record.slots.get dir').attach stream).1 := by
          intro ho
          apply hne
          cases b
          simp_all
        rw [if_pos hb]
        unfold streamAt
        cases hd : (s.vacate dir' row.record.binding).devices.get? b.device with
        | none => rfl
        | some r =>
          simp only [Option.bind_some]
          rw [Slots.get?_attach, if_neg ho, hget r (hb ▸ hd)]
      · rw [if_neg hb]
    · exact streamAt_modifyDevice_of_ne _ index (fun _ => rfl) hdir b

/-- How a commit ends: a handle that was never given out or was released meanwhile is refused
and nothing changes, and otherwise the stream is bound. -/
theorem commit_cases (s : Session δ σ) (dir : Direction) (index handle : Nat) (stream : σ dir)
    (hk : s.isKnown index) :
    (s.isIssued dir handle = false ∧
      s.commit dir index handle stream = (.error (.noStreamer dir handle), s)) ∨
    (s.isReleased dir handle ∧
      s.commit dir index handle stream = (.error (.freedDuringAttach dir handle), s)) ∨
    (s.isReleased dir handle = false ∧ ∃ offset s',
      s.commit dir index handle stream = (.ok offset, s') ∧
        Committed s s' dir index handle offset stream) := by
  unfold commit isIssued
  cases hrow : (s.handles.get dir).row? handle with
  | none => exact Or.inl ⟨rfl, rfl⟩
  | some row =>
    right
    have hrel : s.isReleased dir handle = row.record.released := by
      unfold isReleased
      rw [hrow]
      rfl
    rw [hrel]
    simp only [Option.map_some]
    cases hr : row.record.released with
    | true => exact Or.inl ⟨rfl, by simp⟩
    | false =>
      right
      rw [← isKnown_vacate s dir row.record.binding] at hk
      obtain ⟨drow, hdrow⟩ := Option.isSome_iff_exists.1 hk
      refine ⟨rfl, ((drow.record.slots.get dir).attach stream).1, _, ?_,
        committed_attach s dir index handle stream hrow hdrow⟩
      simp only [Bool.false_eq_true, if_false, hdrow, Option.map_some]

/-! ## Steps that bind and vacate nothing -/

/-- Two sessions with the same answers to every question. -/
structure SameView (s s' : Session δ σ) : Prop where
  known : ∀ i, s'.isKnown i = s.isKnown i
  live : ∀ i, s'.isLive i = s.isLive i
  issued : ∀ dir handle, s'.isIssued dir handle = s.isIssued dir handle
  listed : ∀ dir handle, s'.isListed dir handle = s.isListed dir handle
  released : ∀ dir handle, s'.isReleased dir handle = s.isReleased dir handle
  binding : ∀ dir handle, s'.bindingOf dir handle = s.bindingOf dir handle
  stream : ∀ dir b, s'.streamAt dir b = s.streamAt dir b

theorem SameView.refl (s : Session δ σ) : SameView s s :=
  ⟨fun _ => rfl, fun _ => rfl, fun _ _ => rfl, fun _ _ => rfl, fun _ _ => rfl, fun _ _ => rfl,
    fun _ _ => rfl⟩

theorem SameView.trans {s s' s'' : Session δ σ} (h : SameView s s') (h' : SameView s' s'') :
    SameView s s'' where
  known i := (h'.known i).trans (h.known i)
  live i := (h'.live i).trans (h.live i)
  issued dir i := (h'.issued dir i).trans (h.issued dir i)
  listed dir i := (h'.listed dir i).trans (h.listed dir i)
  released dir i := (h'.released dir i).trans (h.released dir i)
  binding dir i := (h'.binding dir i).trans (h.binding dir i)
  stream dir b := (h'.stream dir b).trans (h.stream dir b)

theorem sameView_modifyDevice (s : Session δ σ) (index : Nat)
    {f : DeviceRecord δ σ → DeviceRecord δ σ} (hf : ∀ r, (f r).slots = r.slots) :
    SameView s (s.modifyDevice index f) := by
  constructor <;> intros <;> simp [streamAt_modifyDevice_of_slots, hf]

theorem sameView_recordOnDevice (s : Session δ σ) (index : Nat) (result : Except Error β) :
    SameView s (s.recordOnDevice index result) :=
  sameView_modifyDevice s index fun _ => rfl

/-- A call on a device moves no stream and binds no handle. -/
theorem sameView_deviceCall (s : Session δ σ) (index : Nat) (f : δ → Except Fault β × δ) :
    SameView s (s.deviceCall index f).2 := by
  unfold deviceCall
  cases s.deviceRecord index with
  | error e => exact SameView.refl s
  | ok r =>
    have h := sameView_modifyDevice s index (f := fun q => { q with device := (f r.device).2 })
      fun _ => rfl
    exact h.trans (sameView_recordOnDevice _ index (guardedResult (f r.device).1))

@[simp] theorem deviceAt_recordOnDevice (s : Session δ σ) (index other : Nat)
    (result : Except Error β) : (s.recordOnDevice index result).deviceAt other = s.deviceAt other :=
  deviceAt_modifyDevice_of_device s index other fun _ => rfl

theorem deviceAt_deviceCall (s : Session δ σ) (index other : Nat) (f : δ → Except Fault β × δ) :
    (s.deviceCall index f).2.deviceAt other =
      if other = index then (s.deviceAt other).map fun device => (f device).2
      else s.deviceAt other := by
  unfold deviceCall
  cases hl : s.isLive index with
  | false =>
    rw [deviceRecord_of_not_isLive hl]
    by_cases ho : other = index
    · rw [isLive_eq_isSome_deviceAt, ← ho] at hl
      have hnone : s.deviceAt other = none :=
        Option.isNone_iff_eq_none.1 (Option.isSome_eq_false_iff.1 hl)
      rw [if_pos ho, hnone]
      rfl
    · rw [if_neg ho]
  | true =>
    obtain ⟨r, hr⟩ := exists_deviceRecord hl
    rw [hr]
    show (recordOnDevice _ index _).deviceAt other = _
    rw [deviceAt_recordOnDevice, deviceAt_modifyDevice]
    by_cases ho : other = index
    · rw [if_pos ho, if_pos ho, ho]
      unfold deviceAt
      rw [deviceRecord_eq_ok_iff.1 hr]
      rfl
    · rw [if_neg ho, if_neg ho]

/-- A change of a record that leaves its binding and its mark alone is not seen. -/
theorem sameView_modifyStream (s : Session δ σ) (dir : Direction) (handle : Nat)
    {f : StreamRecord → StreamRecord} (hb : ∀ r, (f r).binding = r.binding)
    (hr : ∀ r, (f r).released = r.released) : SameView s (s.modifyStream dir handle f) := by
  constructor
  case known | live | stream => intros; rfl
  case issued | listed => intros; simp
  case released =>
    intro dir' handle'
    rw [isReleased_modifyStream]
    simp only [hr]
    split <;> rfl
  case binding =>
    intro dir' handle'
    rw [bindingOf_modifyStream]
    simp only [hb]
    split <;> rfl

@[simp] theorem isKnown_clear (s : Session δ σ) (index : Nat) :
    s.clear.isKnown index = s.isKnown index := by
  unfold isKnown clear
  rw [HandleTable.row?_clear]
  simp

@[simp] theorem isLive_clear (s : Session δ σ) (index : Nat) : s.clear.isLive index = false := by
  simp [isLive, clear, HandleTable.contains]

@[simp] theorem deviceAt_clear (s : Session δ σ) (index : Nat) : s.clear.deviceAt index = none := by
  simp [deviceAt, clear]

@[simp] theorem isIssued_clear (s : Session δ σ) (dir : Direction) (handle : Nat) :
    s.clear.isIssued dir handle = s.isIssued dir handle := by
  cases dir <;> simp [isIssued, clear, Sides.get, HandleTable.row?_clear]

@[simp] theorem isListed_clear (s : Session δ σ) (dir : Direction) (handle : Nat) :
    s.clear.isListed dir handle = false := by
  cases dir <;> simp [isListed, clear, Sides.get, HandleTable.contains]

@[simp] theorem streamAt_clear (s : Session δ σ) (dir : Direction) (b : Binding) :
    s.clear.streamAt dir b = none :=
  streamAt_of_not_isLive (isLive_clear s b.device)

/-- Dropping everything leaves the records of handles as they were. -/
theorem record_clear (s : Session δ σ) (dir : Direction) (handle : Nat) :
    ((s.clear.handles.get dir).row? handle).map HandleRow.record =
      ((s.handles.get dir).row? handle).map HandleRow.record := by
  cases dir <;> simp [clear, Sides.get, HandleTable.row?_clear, Function.comp_def]

@[simp] theorem bindingOf_clear (s : Session δ σ) (dir : Direction) (handle : Nat) :
    s.clear.bindingOf dir handle = s.bindingOf dir handle := by
  rw [bindingOf_eq_map, record_clear, ← bindingOf_eq_map]

@[simp] theorem isReleased_clear (s : Session δ σ) (dir : Direction) (handle : Nat) :
    s.clear.isReleased dir handle = s.isReleased dir handle := by
  rw [isReleased_eq_map, record_clear, ← isReleased_eq_map]

/-! ## Calls on a stream -/

/-- A record bound to an occupied place of a live device leads to the stream there. -/
theorem resolveStream_of_streamAt {s : Session δ σ} {dir : Direction} {record : StreamRecord}
    {b : Binding} {r : DeviceRecord δ σ} {stream : σ dir} (hb : record.binding = some b)
    (hr : s.deviceRecord b.device = .ok r) (hs : s.streamAt dir b = some stream) :
    s.resolveStream dir record = .ok (b, r.device, stream) := by
  unfold streamAt at hs
  rw [deviceRecord_eq_ok_iff.1 hr, Option.bind_some] at hs
  unfold resolveStream
  simp only [hb, hr, bind, Except.bind, hs]
  rfl

/-- A record that leads nowhere is refused, and always with the one status. -/
theorem resolveStream_of_streamAt_eq_none {s : Session δ σ} {dir : Direction}
    {record : StreamRecord} (h : ∀ b, record.binding = some b → s.streamAt dir b = none) :
    ∃ e, s.resolveStream dir record = .error e ∧ e.status = .invalidDevice := by
  unfold resolveStream
  cases hb : record.binding with
  | none => exact ⟨.notAttached dir, rfl, rfl⟩
  | some b =>
    have hs := h b hb
    cases hd : s.deviceRecord b.device with
    | error e =>
      refine ⟨e, by simp only [bind, Except.bind, hd], ?_⟩
      unfold deviceRecord at hd
      split at hd
      · cases hd
      · cases hd
        rfl
    | ok r =>
      unfold streamAt at hs
      rw [deviceRecord_eq_ok_iff.1 hd, Option.bind_some] at hs
      refine ⟨.vacantSlot dir b.offset b.device, ?_, rfl⟩
      simp only [bind, Except.bind, hd, hs]

/-- What a call leaves that has run on the stream at a place and on its device. -/
structure StreamPut (s s' : Session δ σ) (dir : Direction) (b : Binding) (device : δ)
    (stream : σ dir) : Prop where
  known : ∀ i, s'.isKnown i = s.isKnown i
  live : ∀ i, s'.isLive i = s.isLive i
  device : ∀ i, s'.deviceAt i = if i = b.device then some device else s.deviceAt i
  issued : ∀ dir' handle', s'.isIssued dir' handle' = s.isIssued dir' handle'
  listed : ∀ dir' handle', s'.isListed dir' handle' = s.isListed dir' handle'
  released : ∀ dir' handle', s'.isReleased dir' handle' = s.isReleased dir' handle'
  binding : ∀ dir' handle', s'.bindingOf dir' handle' = s.bindingOf dir' handle'
  self : s'.streamAt dir b = some stream
  other : ∀ dir' b', ¬ (dir' = dir ∧ b' = b) → s'.streamAt dir' b' = s.streamAt dir' b'

/-- A call through a handle that is bound to an occupied place runs on the stream there. -/
theorem streamRun_reached {s : Session δ σ} {dir : Direction} {handle : Nat} {b : Binding}
    {r : DeviceRecord δ σ} {stream : σ dir} (f : δ → σ dir → (Except Fault β × ω) × δ × σ dir)
    (hl : s.isListed dir handle) (hb : s.bindingOf dir handle = some b)
    (hr : s.deviceRecord b.device = .ok r) (hs : s.streamAt dir b = some stream) :
    (s.streamRun dir handle f).1 =
        (guardedResult (f r.device stream).1.1, some (f r.device stream).1.2) ∧
      StreamPut s (s.streamRun dir handle f).2 dir b (f r.device stream).2.1
        (f r.device stream).2.2 := by
  obtain ⟨record, hrec, hbind⟩ := streamRecord_of_isListed hl
  unfold streamRun
  simp only [hrec, resolveStream_of_streamAt (hbind.trans hb) hr hs, true_and]
  have hv := sameView_modifyStream (s.modifyDevice b.device fun q =>
      { q with
        device := (f r.device stream).2.1
        slots := q.slots.set dir ((q.slots.get dir).update b.offset (f r.device stream).2.2) })
    dir handle (f := fun q =>
      { q with lastError := ErrorSlot.ofResult (guardedResult (f r.device stream).1.1) })
    (fun _ => rfl) fun _ => rfl
  have hd := deviceRecord_eq_ok_iff.1 hr
  constructor
  case known => exact fun i => (hv.known i).trans (by simp)
  case live => exact fun i => (hv.live i).trans (by simp)
  case device =>
    intro i
    rw [deviceAt_modifyStream, deviceAt_modifyDevice]
    by_cases hi : i = b.device
    · rw [if_pos hi, if_pos hi, hi, hd]
      rfl
    · rw [if_neg hi, if_neg hi]
  case issued => exact fun dir' i => (hv.issued dir' i).trans rfl
  case listed => exact fun dir' i => (hv.listed dir' i).trans rfl
  case released => exact fun dir' i => (hv.released dir' i).trans rfl
  case binding => exact fun dir' i => (hv.binding dir' i).trans rfl
  case self =>
    unfold streamAt at hs
    rw [hd, Option.bind_some] at hs
    rw [hv.stream, streamAt_modifyDevice_self s b.device fun _ => rfl, if_pos rfl, hd]
    simp [Slots.get?_update, hs]
  case other =>
    intro dir' b' hne
    rw [hv.stream]
    by_cases hdir : dir' = dir
    · subst hdir
      rw [streamAt_modifyDevice_self s b.device fun _ => rfl]
      by_cases hb' : b'.device = b.device
      · have ho : b'.offset ≠ b.offset := by
          intro ho
          apply hne
          cases b
          cases b'
          simp_all
        rw [if_pos hb']
        simp only [Slots.get?_update, if_neg ho]
        rfl
      · rw [if_neg hb']
    · exact streamAt_modifyDevice_of_ne s b.device (fun _ => rfl) hdir b'

/-- A call through any other handle does not run, and has the one status for that. -/
theorem streamRun_unreached {s : Session δ σ} {dir : Direction} {handle : Nat}
    (f : δ → σ dir → (Except Fault β × ω) × δ × σ dir)
    (h : s.isListed dir handle → ∀ b, s.bindingOf dir handle = some b →
      s.streamAt dir b = none) :
    (∃ e, (s.streamRun dir handle f).1 = (.error e, none) ∧ e.status = .invalidDevice) ∧
      SameView s (s.streamRun dir handle f).2 ∧
      ∀ i, (s.streamRun dir handle f).2.deviceAt i = s.deviceAt i := by
  unfold streamRun
  cases hl : s.isListed dir handle with
  | false =>
    rw [streamRecord_of_not_isListed hl]
    exact ⟨⟨_, rfl, rfl⟩, SameView.refl s, fun _ => rfl⟩
  | true =>
    obtain ⟨record, hrec, hbind⟩ := streamRecord_of_isListed hl
    have hnone : ∀ b, record.binding = some b → s.streamAt dir b = none :=
      fun b hb => h hl b (hbind ▸ hb)
    obtain ⟨e, he, hstatus⟩ := resolveStream_of_streamAt_eq_none hnone
    simp only [hrec, he]
    exact ⟨⟨e, rfl, hstatus⟩, sameView_modifyStream s dir handle (fun _ => rfl) fun _ => rfl,
      fun _ => rfl⟩

/-- Whatever handle a call goes through, it changes one stream at most. -/
theorem streamRun_cases (s : Session δ σ) (dir : Direction) (handle : Nat)
    (f : δ → σ dir → (Except Fault β × ω) × δ × σ dir) :
    (∃ b v device v', s.streamAt dir b = some v ∧
        StreamPut s (s.streamRun dir handle f).2 dir b device v') ∨
      SameView s (s.streamRun dir handle f).2 := by
  by_cases h : s.isListed dir handle ∧ ∃ b v, s.bindingOf dir handle = some b ∧
      s.streamAt dir b = some v
  · obtain ⟨hl, b, v, hb, hv⟩ := h
    have hlive : s.isLive b.device := isLive_of_streamAt (by rw [hv]; rfl)
    obtain ⟨r, hr⟩ := exists_deviceRecord hlive
    exact Or.inl ⟨b, v, _, _, hv, (streamRun_reached f hl hb hr hv).2⟩
  · right
    refine (streamRun_unreached f fun hl b hb => ?_).2.1
    cases hv : s.streamAt dir b with
    | none => rfl
    | some v => exact absurd ⟨hl, b, v, hb, hv⟩ h

end SoftRadio.Session
