import SoftRadio.Proofs.Outcome
import SoftRadio.Proofs.Session.Effect

/-!
# The texts that a session keeps

Devices and stream handles alike keep the text of their latest call.  `Party` is either of them,
and `slot` the text it keeps, as long as it can be named.

The lemmas say how each operation changes the texts, all of them at once: a new party starts with
the empty text, a call rewrites the text of the one party it goes through, a party that is taken
out keeps nothing that can be read, and everything else leaves every text as it was.
-/

namespace SoftRadio.Session

/-- Whoever keeps the text of its latest call. -/
inductive Party where
  | device (index : Nat)
  | stream (dir : Direction) (handle : Nat)
  deriving DecidableEq

variable {δ : Type} {σ : Direction → Type} {β ω : Type}

/-- Whether a party is there: a device that is live, or a handle that can be named. -/
def has (s : Session δ σ) : Party → Bool
  | .device index => s.isLive index
  | .stream dir handle => s.isListed dir handle

/-- What is read as the last error of a party. -/
def lastError (s : Session δ σ) : Party → Except Error String
  | .device index => s.deviceLastError index
  | .stream dir handle => s.streamLastError dir handle

/-- The text of a party that is there. -/
def slot (s : Session δ σ) : Party → Option String
  | .device index => (s.devices.get? index).map DeviceRecord.lastError
  | .stream dir handle => ((s.handles.get dir).get? handle).map StreamRecord.lastError

theorem has_eq_isSome_slot (s : Session δ σ) (x : Party) : s.has x = (s.slot x).isSome := by
  cases x <;> simp [has, slot, isLive, isListed, HandleTable.contains]

theorem streamRecord_eq_ok_iff {s : Session δ σ} {dir : Direction} {handle : Nat}
    {r : StreamRecord} :
    s.streamRecord dir handle = .ok r ↔ (s.handles.get dir).get? handle = some r := by
  unfold streamRecord
  cases (s.handles.get dir).get? handle <;> simp

/-- What is read is the text that is kept. -/
theorem lastError_eq_ok_iff {s : Session δ σ} {x : Party} {text : String} :
    s.lastError x = .ok text ↔ s.slot x = some text := by
  cases x with
  | device index =>
    unfold lastError deviceLastError slot
    simp only [bind_eq_ok_iff, deviceRecord_eq_ok_iff, pure_eq_ok_iff, Option.map_eq_some_iff]
  | stream dir handle =>
    unfold lastError streamLastError slot
    simp only [bind_eq_ok_iff, streamRecord_eq_ok_iff, pure_eq_ok_iff, Option.map_eq_some_iff]

theorem slot_eq_none {s : Session δ σ} {x : Party} (h : s.has x = false) : s.slot x = none := by
  rw [has_eq_isSome_slot] at h
  exact Option.isNone_iff_eq_none.1 (Option.isSome_eq_false_iff.1 h)

/-- A party that is there has a text. -/
theorem exists_slot {s : Session δ σ} {x : Party} (h : s.has x) : ∃ text, s.slot x = some text := by
  rw [has_eq_isSome_slot] at h
  exact Option.isSome_iff_exists.1 h

@[simp] theorem slot_initial (x : Party) : (initial : Session δ σ).slot x = none := by
  cases x with
  | device index => simp [slot, initial]
  | stream dir handle => cases dir <;> simp [slot, initial, Sides.get]

/-! ## Changes of one record -/

theorem slot_modifyDevice (s : Session δ σ) (index : Nat)
    (f : DeviceRecord δ σ → DeviceRecord δ σ) (x : Party) :
    (s.modifyDevice index f).slot x =
      if x = .device index then (s.devices.get? index).map fun r => (f r).lastError
      else s.slot x := by
  cases x with
  | stream dir handle => rfl
  | device other =>
    unfold slot modifyDevice
    simp only [HandleTable.get?_modify, Party.device.injEq]
    by_cases ho : other = index
    · subst ho
      simp [Function.comp_def]
    · simp [ho]

theorem slot_modifyDevice_of_lastError (s : Session δ σ) (index : Nat)
    {f : DeviceRecord δ σ → DeviceRecord δ σ} (x : Party)
    (hf : ∀ r, (f r).lastError = r.lastError) : (s.modifyDevice index f).slot x = s.slot x := by
  rw [slot_modifyDevice]
  split
  · rename_i hx
    rw [hx]
    simp only [hf]
    rfl
  · rfl

theorem slot_modifyStream (s : Session δ σ) (dir : Direction) (handle : Nat)
    (f : StreamRecord → StreamRecord) (x : Party) :
    (s.modifyStream dir handle f).slot x =
      if x = .stream dir handle then
        ((s.handles.get dir).get? handle).map fun r => (f r).lastError
      else s.slot x := by
  cases x with
  | device index => rfl
  | stream dir' handle' =>
    unfold slot modifyStream
    simp only [Party.stream.injEq]
    by_cases hd : dir' = dir
    · subst hd
      simp only [Sides.get_set_self, HandleTable.get?_modify, true_and]
      by_cases hh : handle' = handle
      · subst hh
        simp [Function.comp_def]
      · simp [hh]
    · simp [Sides.get_set_of_ne _ _ hd, hd]

theorem slot_modifyStream_of_lastError (s : Session δ σ) (dir : Direction) (handle : Nat)
    {f : StreamRecord → StreamRecord} (x : Party) (hf : ∀ r, (f r).lastError = r.lastError) :
    (s.modifyStream dir handle f).slot x = s.slot x := by
  rw [slot_modifyStream]
  split
  · rename_i hx
    rw [hx]
    simp only [hf]
    rfl
  · rfl

/-- What a call comes to is put down for its device, if the device is still there. -/
theorem slot_recordOnDevice (s : Session δ σ) (index : Nat) (result : Except Error β)
    (x : Party) : (s.recordOnDevice index result).slot x =
      if x = .device index then (s.slot x).map fun _ => ErrorSlot.ofResult result
      else s.slot x := by
  unfold recordOnDevice
  rw [slot_modifyDevice]
  split
  · rename_i hx
    rw [hx]
    simp [slot, Function.comp_def]
  · rfl

/-- The same for a handle. -/
theorem slot_recordOnStream (s : Session δ σ) (dir : Direction) (handle : Nat)
    (result : Except Error β) (x : Party) :
    (s.modifyStream dir handle fun r =>
      { r with lastError := ErrorSlot.ofResult result }).slot x =
      if x = .stream dir handle then (s.slot x).map fun _ => ErrorSlot.ofResult result
      else s.slot x := by
  rw [slot_modifyStream]
  split
  · rename_i hx
    rw [hx]
    simp [slot, Function.comp_def]
  · rfl

/-! ## Parties that come and go -/

theorem slot_addDevice (s : Session δ σ) (device : δ) (x : Party) :
    (s.addDevice device).2.slot x =
      if x = .device (s.addDevice device).1 then some ErrorSlot.initial else s.slot x := by
  cases x with
  | stream dir handle => rfl
  | device index =>
    unfold slot addDevice
    simp only [HandleTable.get?_insert, Party.device.injEq]
    rw [show (s.devices.insert _).1 = s.devices.next from rfl]
    split <;> rfl

theorem slot_makeStream (s : Session δ σ) (dir : Direction) (x : Party) :
    (s.makeStream dir).2.slot x =
      if x = .stream dir (s.makeStream dir).1 then some ErrorSlot.initial else s.slot x := by
  cases x with
  | device index => rfl
  | stream dir' handle =>
    unfold slot makeStream
    simp only [Party.stream.injEq]
    by_cases hd : dir' = dir
    · subst hd
      simp only [Sides.get_set_self, HandleTable.get?_insert, true_and]
      rw [show ((s.handles.get dir').insert _).1 = (s.handles.get dir').next from rfl]
      split <;> rfl
    · simp [Sides.get_set_of_ne _ _ hd, hd]

theorem slot_freeDevice (s : Session δ σ) (index : Nat) (x : Party) :
    (s.freeDevice index).2.slot x = if x = .device index then none else s.slot x := by
  rcases freeDevice_cases s index with ⟨-, -, h⟩ | ⟨hl, h⟩
  · rw [h]
    cases x with
    | stream dir handle => rfl
    | device other =>
      unfold slot
      simp only [HandleTable.get?_remove, Party.device.injEq]
      split <;> rfl
  · rw [h]
    split
    · rename_i hx
      have hgone : s.has x = false := hx ▸ hl
      exact slot_eq_none hgone
    · rfl

theorem slot_unlistStream (s : Session δ σ) (dir : Direction) (handle : Nat) (x : Party) :
    (s.unlistStream dir handle).2.slot x =
      if x = .stream dir handle then none else s.slot x := by
  rcases unlistStream_cases s dir handle with ⟨-, h⟩ | ⟨hl, h⟩
  · rw [h]
    cases x with
    | device index => rfl
    | stream dir' handle' =>
      unfold slot
      simp only [Party.stream.injEq]
      by_cases hd : dir' = dir
      · subst hd
        simp only [Sides.get_set_self, HandleTable.get?_remove, true_and]
        split <;> rfl
      · simp [Sides.get_set_of_ne _ _ hd, hd]
  · rw [h]
    split
    · rename_i hx
      have hgone : s.has x = false := hx ▸ hl
      exact slot_eq_none hgone
    · rfl

@[simp] theorem slot_detach (s : Session δ σ) (dir : Direction) (b : Binding) (x : Party) :
    (s.detach dir b).slot x = s.slot x := by
  unfold detach
  split
  · rfl
  · exact slot_modifyDevice_of_lastError s b.device x fun _ => rfl

@[simp] theorem slot_vacate (s : Session δ σ) (dir : Direction) (held : Option Binding)
    (x : Party) : (s.vacate dir held).slot x = s.slot x := by
  cases held with
  | none => rfl
  | some b => exact slot_detach s dir b x

@[simp] theorem slot_releaseStream (s : Session δ σ) (dir : Direction) (handle : Nat)
    (x : Party) : (s.releaseStream dir handle).2.slot x = s.slot x :=
  slot_modifyStream_of_lastError s dir handle x fun _ => rfl

theorem slot_freeStream (s : Session δ σ) (dir : Direction) (handle : Nat) (x : Party) :
    (s.freeStream dir handle).2.slot x =
      if x = .stream dir handle then none else s.slot x := by
  rw [← slot_unlistStream]
  unfold freeStream
  rcases unlistStream_cases s dir handle with ⟨-, h⟩ | ⟨-, h⟩
  · simp [h]
  · simp [h]

@[simp] theorem slot_clear (s : Session δ σ) (x : Party) : s.clear.slot x = none := by
  cases x with
  | device index => simp [slot, clear]
  | stream dir handle => cases dir <;> simp [slot, clear, Sides.get]

/-! ## Calls -/

/-- A commit leaves all texts alone, however it ends. -/
@[simp] theorem slot_commit (s : Session δ σ) (dir : Direction) (index handle : Nat)
    (stream : σ dir) (x : Party) :
    (s.commit dir index handle stream).2.slot x = s.slot x := by
  unfold commit
  cases ((s.handles.get dir).row? handle).map HandleRow.record with
  | none => rfl
  | some record =>
    dsimp only
    split
    · rfl
    · split
      · exact slot_vacate s dir record.binding x
      · dsimp only
        rw [slot_modifyStream_of_lastError, slot_modifyDevice_of_lastError, slot_vacate]
        · exact fun _ => rfl
        · exact fun _ => rfl

theorem slot_deviceCall (s : Session δ σ) (index : Nat) (f : δ → Except Fault β × δ)
    (x : Party) : (s.deviceCall index f).2.slot x =
      if x = .device index then
        (s.slot x).map fun _ => ErrorSlot.ofResult (s.deviceCall index f).1
      else s.slot x := by
  unfold deviceCall
  cases hl : s.isLive index with
  | false =>
    have hnone : s.slot (.device index) = none := slot_eq_none hl
    rw [deviceRecord_of_not_isLive hl]
    dsimp only
    split
    · rename_i hx
      rw [hx, hnone]
      rfl
    · rfl
  | true =>
    obtain ⟨r, hr⟩ := exists_deviceRecord hl
    rw [hr]
    dsimp only
    rw [slot_recordOnDevice, slot_modifyDevice_of_lastError]
    exact fun _ => rfl

theorem slot_streamRun (s : Session δ σ) (dir : Direction) (handle : Nat)
    (f : δ → σ dir → (Except Fault β × ω) × δ × σ dir) (x : Party) :
    (s.streamRun dir handle f).2.slot x =
      if x = .stream dir handle then
        (s.slot x).map fun _ => ErrorSlot.ofResult (s.streamRun dir handle f).1.1
      else s.slot x := by
  unfold streamRun
  cases hl : s.isListed dir handle with
  | false =>
    have hnone : s.slot (.stream dir handle) = none := slot_eq_none hl
    rw [streamRecord_of_not_isListed hl]
    dsimp only
    split
    · rename_i hx
      rw [hx, hnone]
      rfl
    · rfl
  | true =>
    obtain ⟨record, hrec, -⟩ := streamRecord_of_isListed hl
    rw [hrec]
    dsimp only
    cases s.resolveStream dir record with
    | error e =>
      dsimp only
      exact slot_recordOnStream s dir handle _ x
    | ok found =>
      dsimp only
      rw [slot_recordOnStream, slot_modifyDevice_of_lastError]
      exact fun _ => rfl

/-- An attach that has found its device and its handle puts down what the build came to, over the
texts that the build has left. -/
theorem slot_attach {s : Session δ σ} {dir : Direction} {index handle : Nat}
    (h : s.resolveAttach dir index handle = .ok ())
    (build : Session δ σ → Except Fault (σ dir) × Session δ σ) (x : Party) :
    (s.attach dir index handle build).2.slot x =
      if x = .device index then
        ((build s).2.slot x).map fun _ => ErrorSlot.ofResult (guardedResult (build s).1)
      else (build s).2.slot x := by
  rw [← slot_recordOnDevice]
  unfold attach
  rw [h]
  dsimp only
  cases guardedResult (build s).1 with
  | error e => rfl
  | ok stream => exact slot_commit _ dir index handle stream x

/-- An attach that has not found them leaves everything as it was. -/
theorem attach_of_resolveAttach_eq_error {s : Session δ σ} {dir : Direction} {index handle : Nat}
    {e : Error} (h : s.resolveAttach dir index handle = .error e)
    (build : Session δ σ → Except Fault (σ dir) × Session δ σ) :
    s.attach dir index handle build = (.error e, s) := by
  unfold attach
  rw [h]

end SoftRadio.Session
