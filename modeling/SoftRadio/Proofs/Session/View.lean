import SoftRadio.Session.Basic

/-!
# What can be seen of a session

Every fact about sessions is stated through a few questions: which devices were ever given out
(`isKnown`) and which of them are there (`isLive`, `deviceAt`), which handles were ever given out
(`isIssued`), which of them can be named (`isListed`) and which were freed (`isReleased`), where
a handle is bound (`bindingOf`), and which stream is at a place of a device that is there
(`streamAt`).

The lemmas say how each operation changes the answers.  None of the proofs built on them opens
an operation again.
-/

namespace SoftRadio.Session

variable {δ : Type} {σ : Direction → Type} {β ω : Type}

def isKnown (s : Session δ σ) (index : Nat) : Bool := (s.devices.row? index).isSome

def isLive (s : Session δ σ) (index : Nat) : Bool := s.devices.contains index

def deviceAt (s : Session δ σ) (index : Nat) : Option δ :=
  (s.devices.get? index).map DeviceRecord.device

def isIssued (s : Session δ σ) (dir : Direction) (handle : Nat) : Bool :=
  ((s.handles.get dir).row? handle).isSome

def isListed (s : Session δ σ) (dir : Direction) (handle : Nat) : Bool :=
  (s.handles.get dir).contains handle

/-- Whether the record of a handle carries the mark of a free. -/
def isReleased (s : Session δ σ) (dir : Direction) (handle : Nat) : Bool :=
  (((s.handles.get dir).row? handle).map fun row => row.record.released).getD false

/-- The binding in the record of a handle, listed or not. -/
def bindingOf (s : Session δ σ) (dir : Direction) (handle : Nat) : Option Binding :=
  ((s.handles.get dir).row? handle).bind fun row => row.record.binding

/-- The stream at a place, if the device is there and the place is occupied. -/
def streamAt (s : Session δ σ) (dir : Direction) (b : Binding) : Option (σ dir) :=
  (s.devices.get? b.device).bind fun r => (r.slots.get dir).get? b.offset

theorem isLive_eq_isSome_deviceAt (s : Session δ σ) (index : Nat) :
    s.isLive index = (s.deviceAt index).isSome := by
  unfold isLive HandleTable.contains deviceAt
  rw [Option.isSome_map]

theorem isLive_of_streamAt {s : Session δ σ} {dir : Direction} {b : Binding}
    (h : (s.streamAt dir b).isSome) : s.isLive b.device := by
  unfold streamAt at h
  unfold isLive HandleTable.contains
  cases hd : s.devices.get? b.device with
  | none => rw [hd] at h; simp at h
  | some r => rfl

theorem streamAt_of_not_isLive {s : Session δ σ} {dir : Direction} {b : Binding}
    (h : s.isLive b.device = false) : s.streamAt dir b = none := by
  cases hs : s.streamAt dir b with
  | none => rfl
  | some v =>
    have hsome : (s.streamAt dir b).isSome := by rw [hs]; rfl
    have hl : s.isLive b.device = true := isLive_of_streamAt hsome
    rw [h] at hl
    cases hl

theorem isKnown_of_isLive {s : Session δ σ} {index : Nat} (h : s.isLive index) :
    s.isKnown index := by
  unfold isLive HandleTable.contains HandleTable.get? at h
  unfold isKnown
  cases hr : s.devices.row? index with
  | none => rw [hr] at h; simp at h
  | some row => rfl

theorem isIssued_of_isListed {s : Session δ σ} {dir : Direction} {handle : Nat}
    (h : s.isListed dir handle) : s.isIssued dir handle := by
  unfold isListed HandleTable.contains HandleTable.get? at h
  unfold isIssued
  cases hr : (s.handles.get dir).row? handle with
  | none => rw [hr] at h; simp at h
  | some row => rfl

theorem isIssued_of_bindingOf {s : Session δ σ} {dir : Direction} {handle : Nat} {b : Binding}
    (h : s.bindingOf dir handle = some b) : s.isIssued dir handle := by
  unfold bindingOf at h
  unfold isIssued
  cases hr : (s.handles.get dir).row? handle with
  | none => rw [hr] at h; cases h
  | some row => rfl

theorem isIssued_of_isReleased {s : Session δ σ} {dir : Direction} {handle : Nat}
    (h : s.isReleased dir handle) : s.isIssued dir handle := by
  unfold isReleased at h
  unfold isIssued
  cases hr : (s.handles.get dir).row? handle with
  | none => rw [hr] at h; cases h
  | some row => rfl

theorem deviceRecord_eq_ok_iff {s : Session δ σ} {index : Nat} {r : DeviceRecord δ σ} :
    s.deviceRecord index = .ok r ↔ s.devices.get? index = some r := by
  unfold deviceRecord
  cases s.devices.get? index <;> simp

theorem deviceRecord_of_not_isLive {s : Session δ σ} {index : Nat} (h : s.isLive index = false) :
    s.deviceRecord index = .error (.noDevice index) := by
  unfold isLive HandleTable.contains at h
  unfold deviceRecord
  cases hd : s.devices.get? index with
  | none => rfl
  | some r => rw [hd] at h; simp at h

theorem exists_deviceRecord {s : Session δ σ} {index : Nat} (h : s.isLive index) :
    ∃ r, s.deviceRecord index = .ok r := by
  obtain ⟨r, hr⟩ := Option.isSome_iff_exists.1 h
  exact ⟨r, deviceRecord_eq_ok_iff.2 hr⟩

/-- A listed handle finds its record, and with it the binding. -/
theorem streamRecord_of_isListed {s : Session δ σ} {dir : Direction} {handle : Nat}
    (h : s.isListed dir handle) :
    ∃ record, s.streamRecord dir handle = .ok record ∧
      record.binding = s.bindingOf dir handle := by
  unfold isListed HandleTable.contains HandleTable.get? at h
  unfold streamRecord bindingOf HandleTable.get?
  cases hr : (s.handles.get dir).row? handle with
  | none => rw [hr] at h; simp at h
  | some row =>
    cases hl : row.listed with
    | false => rw [hr] at h; simp [hl] at h
    | true => exact ⟨row.record, by simp [hl], rfl⟩

theorem streamRecord_of_not_isListed {s : Session δ σ} {dir : Direction} {handle : Nat}
    (h : s.isListed dir handle = false) :
    s.streamRecord dir handle = .error (.noStreamer dir handle) := by
  unfold isListed HandleTable.contains at h
  unfold streamRecord
  cases hg : (s.handles.get dir).get? handle with
  | none => rfl
  | some r => rw [hg] at h; simp at h

/-- An attach starts only from a device that is there and a handle that can be named. -/
theorem resolveAttach_eq_ok_iff {s : Session δ σ} {dir : Direction} {index handle : Nat} :
    s.resolveAttach dir index handle = .ok () ↔ s.isLive index ∧ s.isListed dir handle := by
  unfold resolveAttach
  cases hl : s.isLive index with
  | false => simp [deviceRecord_of_not_isLive hl, bind, Except.bind]
  | true =>
    obtain ⟨r, hr⟩ := exists_deviceRecord hl
    cases hh : s.isListed dir handle with
    | false => simp [hr, streamRecord_of_not_isListed hh, bind, Except.bind]
    | true =>
      obtain ⟨record, hrec, -⟩ := streamRecord_of_isListed hh
      simp [hr, hrec, bind, Except.bind]
      rfl

/-- In the beginning there are no records of handles. -/
theorem row?_initial (dir : Direction) (handle : Nat) :
    ((initial : Session δ σ).handles.get dir).row? handle = none := by
  unfold HandleTable.row? HandleTable.place?
  cases dir <;> split <;> rfl

/-! ## Changes of one device -/

@[simp] theorem isKnown_modifyDevice (s : Session δ σ) (index other : Nat)
    (f : DeviceRecord δ σ → DeviceRecord δ σ) :
    (s.modifyDevice index f).isKnown other = s.isKnown other := by
  unfold isKnown modifyDevice
  rw [HandleTable.row?_modify]
  split <;> simp

@[simp] theorem isLive_modifyDevice (s : Session δ σ) (index other : Nat)
    (f : DeviceRecord δ σ → DeviceRecord δ σ) :
    (s.modifyDevice index f).isLive other = s.isLive other := by
  unfold isLive modifyDevice HandleTable.contains
  rw [HandleTable.get?_modify]
  split <;> simp

theorem deviceAt_modifyDevice (s : Session δ σ) (index other : Nat)
    (f : DeviceRecord δ σ → DeviceRecord δ σ) :
    (s.modifyDevice index f).deviceAt other =
      if other = index then (s.devices.get? other).map fun r => (f r).device
      else s.deviceAt other := by
  unfold deviceAt modifyDevice
  simp only [HandleTable.get?_modify]
  split
  · rw [Option.map_map]
    rfl
  · rfl

theorem deviceAt_modifyDevice_of_device (s : Session δ σ) (index other : Nat)
    {f : DeviceRecord δ σ → DeviceRecord δ σ} (hf : ∀ r, (f r).device = r.device) :
    (s.modifyDevice index f).deviceAt other = s.deviceAt other := by
  rw [deviceAt_modifyDevice]
  simp only [hf]
  split <;> rfl

theorem streamAt_modifyDevice (s : Session δ σ) (index : Nat)
    (f : DeviceRecord δ σ → DeviceRecord δ σ) (dir : Direction) (b : Binding) :
    (s.modifyDevice index f).streamAt dir b =
      if b.device = index then
        (s.devices.get? b.device).bind fun r => ((f r).slots.get dir).get? b.offset
      else s.streamAt dir b := by
  unfold streamAt modifyDevice
  simp only [HandleTable.get?_modify]
  split
  · cases s.devices.get? b.device <;> rfl
  · rfl

/-- A change that leaves the places of a device alone is not seen at any place. -/
theorem streamAt_modifyDevice_of_slots (s : Session δ σ) (index : Nat)
    {f : DeviceRecord δ σ → DeviceRecord δ σ} (hf : ∀ r, (f r).slots = r.slots)
    (dir : Direction) (b : Binding) :
    (s.modifyDevice index f).streamAt dir b = s.streamAt dir b := by
  rw [streamAt_modifyDevice]
  split
  · simp only [hf]
    rfl
  · rfl

/-- A change of the places for streams of one direction, seen from that direction. -/
theorem streamAt_modifyDevice_self (s : Session δ σ) (index : Nat) {dir : Direction}
    {f : DeviceRecord δ σ → DeviceRecord δ σ} {g : DeviceRecord δ σ → Slots (σ dir)}
    (hf : ∀ r, (f r).slots = r.slots.set dir (g r)) (b : Binding) :
    (s.modifyDevice index f).streamAt dir b =
      if b.device = index then (s.devices.get? b.device).bind fun r => (g r).get? b.offset
      else s.streamAt dir b := by
  rw [streamAt_modifyDevice]
  simp only [hf, Sides.get_set_self]

theorem streamAt_modifyDevice_of_ne (s : Session δ σ) (index : Nat) {dir dir' : Direction}
    {f : DeviceRecord δ σ → DeviceRecord δ σ} {g : DeviceRecord δ σ → Slots (σ dir)}
    (hf : ∀ r, (f r).slots = r.slots.set dir (g r)) (hd : dir' ≠ dir) (b : Binding) :
    (s.modifyDevice index f).streamAt dir' b = s.streamAt dir' b := by
  rw [streamAt_modifyDevice]
  simp only [hf, Sides.get_set_of_ne _ _ hd]
  split <;> rfl

@[simp] theorem bindingOf_modifyDevice (s : Session δ σ) (index : Nat)
    (f : DeviceRecord δ σ → DeviceRecord δ σ) (dir : Direction) (handle : Nat) :
    (s.modifyDevice index f).bindingOf dir handle = s.bindingOf dir handle := rfl

@[simp] theorem isReleased_modifyDevice (s : Session δ σ) (index : Nat)
    (f : DeviceRecord δ σ → DeviceRecord δ σ) (dir : Direction) (handle : Nat) :
    (s.modifyDevice index f).isReleased dir handle = s.isReleased dir handle := rfl

@[simp] theorem isIssued_modifyDevice (s : Session δ σ) (index : Nat)
    (f : DeviceRecord δ σ → DeviceRecord δ σ) (dir : Direction) (handle : Nat) :
    (s.modifyDevice index f).isIssued dir handle = s.isIssued dir handle := rfl

@[simp] theorem isListed_modifyDevice (s : Session δ σ) (index : Nat)
    (f : DeviceRecord δ σ → DeviceRecord δ σ) (dir : Direction) (handle : Nat) :
    (s.modifyDevice index f).isListed dir handle = s.isListed dir handle := rfl

/-! ## Changes of one handle -/

@[simp] theorem isKnown_modifyStream (s : Session δ σ) (dir : Direction) (handle : Nat)
    (f : StreamRecord → StreamRecord) (index : Nat) :
    (s.modifyStream dir handle f).isKnown index = s.isKnown index := rfl

@[simp] theorem isLive_modifyStream (s : Session δ σ) (dir : Direction) (handle : Nat)
    (f : StreamRecord → StreamRecord) (index : Nat) :
    (s.modifyStream dir handle f).isLive index = s.isLive index := rfl

@[simp] theorem deviceAt_modifyStream (s : Session δ σ) (dir : Direction) (handle : Nat)
    (f : StreamRecord → StreamRecord) (index : Nat) :
    (s.modifyStream dir handle f).deviceAt index = s.deviceAt index := rfl

@[simp] theorem streamAt_modifyStream (s : Session δ σ) (dir : Direction) (handle : Nat)
    (f : StreamRecord → StreamRecord) (other : Direction) (b : Binding) :
    (s.modifyStream dir handle f).streamAt other b = s.streamAt other b := rfl

/-- What a change of one record makes of any question about rows. -/
theorem row?_modifyStream (s : Session δ σ) (dir : Direction) (handle : Nat)
    (f : StreamRecord → StreamRecord) (dir' : Direction) (handle' : Nat) :
    ((s.modifyStream dir handle f).handles.get dir').row? handle' =
      if dir' = dir ∧ handle' = handle then
        ((s.handles.get dir').row? handle').map fun row => { row with record := f row.record }
      else (s.handles.get dir').row? handle' := by
  unfold modifyStream
  by_cases hd : dir' = dir
  · subst hd
    rw [Sides.get_set_self, HandleTable.row?_modify]
    simp
  · rw [Sides.get_set_of_ne _ _ hd, if_neg fun h => hd h.1]

theorem bindingOf_modifyStream (s : Session δ σ) (dir : Direction) (handle : Nat)
    (f : StreamRecord → StreamRecord) (dir' : Direction) (handle' : Nat) :
    (s.modifyStream dir handle f).bindingOf dir' handle' =
      if dir' = dir ∧ handle' = handle then
        ((s.handles.get dir').row? handle').bind fun row => (f row.record).binding
      else s.bindingOf dir' handle' := by
  unfold bindingOf
  rw [row?_modifyStream]
  split
  · cases (s.handles.get dir').row? handle' <;> rfl
  · rfl

theorem isReleased_modifyStream (s : Session δ σ) (dir : Direction) (handle : Nat)
    (f : StreamRecord → StreamRecord) (dir' : Direction) (handle' : Nat) :
    (s.modifyStream dir handle f).isReleased dir' handle' =
      if dir' = dir ∧ handle' = handle then
        (((s.handles.get dir').row? handle').map fun row => (f row.record).released).getD false
      else s.isReleased dir' handle' := by
  unfold isReleased
  rw [row?_modifyStream]
  split
  · cases (s.handles.get dir').row? handle' <;> rfl
  · rfl

@[simp] theorem isIssued_modifyStream (s : Session δ σ) (dir : Direction) (handle : Nat)
    (f : StreamRecord → StreamRecord) (dir' : Direction) (handle' : Nat) :
    (s.modifyStream dir handle f).isIssued dir' handle' = s.isIssued dir' handle' := by
  unfold isIssued
  rw [row?_modifyStream]
  split <;> simp

@[simp] theorem isListed_modifyStream (s : Session δ σ) (dir : Direction) (handle : Nat)
    (f : StreamRecord → StreamRecord) (dir' : Direction) (handle' : Nat) :
    (s.modifyStream dir handle f).isListed dir' handle' = s.isListed dir' handle' := by
  unfold isListed HandleTable.contains HandleTable.get?
  rw [row?_modifyStream]
  split
  · cases (s.handles.get dir').row? handle' with
    | none => rfl
    | some row => cases hl : row.listed <;> simp [hl]
  · rfl

/-! ## Devices that come and go -/

theorem isKnown_addDevice (s : Session δ σ) (device : δ) (index : Nat) :
    (s.addDevice device).2.isKnown index = (index == s.devices.next || s.isKnown index) := by
  unfold isKnown addDevice
  simp only [HandleTable.row?_insert]
  by_cases h : index = s.devices.next <;> simp [h]

theorem isLive_addDevice (s : Session δ σ) (device : δ) (index : Nat) :
    (s.addDevice device).2.isLive index = (index == s.devices.next || s.isLive index) := by
  unfold isLive addDevice HandleTable.contains
  simp only [HandleTable.get?_insert]
  by_cases h : index = s.devices.next <;> simp [h]

theorem deviceAt_addDevice (s : Session δ σ) (device : δ) (index : Nat) :
    (s.addDevice device).2.deviceAt index =
      if index = s.devices.next then some device else s.deviceAt index := by
  unfold deviceAt addDevice
  simp only [HandleTable.get?_insert]
  split <;> rfl

theorem isKnown_next (s : Session δ σ) : s.isKnown s.devices.next = false := by
  unfold isKnown
  rw [HandleTable.row?_next]
  rfl

/-- A new device has no streams, so that nothing is seen at any new place. -/
@[simp] theorem streamAt_addDevice (s : Session δ σ) (device : δ) (dir : Direction) (b : Binding) :
    (s.addDevice device).2.streamAt dir b = s.streamAt dir b := by
  unfold streamAt addDevice
  simp only [HandleTable.get?_insert]
  by_cases h : b.device = s.devices.next
  · have hnone : s.devices.get? b.device = none := by
      unfold HandleTable.get?
      rw [h, HandleTable.row?_next]
      rfl
    rw [if_pos h, hnone]
    cases dir <;> simp [Sides.get, Slots.get?, Slots.empty]
  · rw [if_neg h]

@[simp] theorem bindingOf_addDevice (s : Session δ σ) (device : δ) (dir : Direction)
    (handle : Nat) : (s.addDevice device).2.bindingOf dir handle = s.bindingOf dir handle := rfl

@[simp] theorem isReleased_addDevice (s : Session δ σ) (device : δ) (dir : Direction)
    (handle : Nat) : (s.addDevice device).2.isReleased dir handle = s.isReleased dir handle := rfl

@[simp] theorem isIssued_addDevice (s : Session δ σ) (device : δ) (dir : Direction)
    (handle : Nat) : (s.addDevice device).2.isIssued dir handle = s.isIssued dir handle := rfl

@[simp] theorem isListed_addDevice (s : Session δ σ) (device : δ) (dir : Direction)
    (handle : Nat) : (s.addDevice device).2.isListed dir handle = s.isListed dir handle := rfl

/-- Whether a device can be freed, and what is then left. -/
theorem freeDevice_cases (s : Session δ σ) (index : Nat) :
    (s.isLive index ∧ (∃ device, (s.freeDevice index).1 = .ok device) ∧
      (s.freeDevice index).2 = { s with devices := (s.devices.remove index).2 }) ∨
    (s.isLive index = false ∧ s.freeDevice index = (.error (.noDevice index), s)) := by
  unfold freeDevice isLive HandleTable.contains
  cases hd : s.devices.get? index with
  | none =>
    right
    simp [HandleTable.remove, hd]
  | some r =>
    left
    exact ⟨rfl, ⟨r.device, by simp [HandleTable.remove, hd]⟩, by simp [HandleTable.remove, hd]⟩

@[simp] theorem isKnown_freeDevice (s : Session δ σ) (index other : Nat) :
    (s.freeDevice index).2.isKnown other = s.isKnown other := by
  rcases freeDevice_cases s index with ⟨-, -, h⟩ | ⟨-, h⟩
  · rw [h]
    unfold isKnown
    rw [HandleTable.row?_remove]
    split <;> simp
  · rw [h]

theorem isLive_freeDevice (s : Session δ σ) (index other : Nat) :
    (s.freeDevice index).2.isLive other = (other != index && s.isLive other) := by
  rcases freeDevice_cases s index with ⟨-, -, h⟩ | ⟨hd, h⟩
  · rw [h]
    unfold isLive HandleTable.contains
    rw [HandleTable.get?_remove]
    by_cases ho : other = index <;> simp [ho]
  · rw [h]
    by_cases ho : other = index
    · simp [ho, hd]
    · simp [ho]

theorem deviceAt_freeDevice (s : Session δ σ) (index other : Nat) :
    (s.freeDevice index).2.deviceAt other = if other = index then none else s.deviceAt other := by
  rcases freeDevice_cases s index with ⟨-, -, h⟩ | ⟨hd, h⟩
  · rw [h]
    unfold deviceAt
    rw [HandleTable.get?_remove]
    split <;> rfl
  · rw [h]
    split
    · rename_i ho
      rw [isLive_eq_isSome_deviceAt] at hd
      rw [ho]
      exact Option.isNone_iff_eq_none.1 (Option.isSome_eq_false_iff.1 hd)
    · rfl

theorem streamAt_freeDevice (s : Session δ σ) (index : Nat) (dir : Direction) (b : Binding) :
    (s.freeDevice index).2.streamAt dir b =
      if b.device = index then none else s.streamAt dir b := by
  rcases freeDevice_cases s index with ⟨-, -, h⟩ | ⟨hd, h⟩
  · rw [h]
    unfold streamAt
    rw [HandleTable.get?_remove]
    split <;> rfl
  · rw [h]
    split
    · rename_i hb
      exact streamAt_of_not_isLive (hb ▸ hd)
    · rfl

theorem handles_freeDevice (s : Session δ σ) (index : Nat) :
    (s.freeDevice index).2.handles = s.handles := by
  rcases freeDevice_cases s index with ⟨-, -, h⟩ | ⟨-, h⟩ <;> rw [h]

@[simp] theorem bindingOf_freeDevice (s : Session δ σ) (index : Nat) (dir : Direction)
    (handle : Nat) : (s.freeDevice index).2.bindingOf dir handle = s.bindingOf dir handle := by
  unfold bindingOf
  rw [handles_freeDevice]

@[simp] theorem isReleased_freeDevice (s : Session δ σ) (index : Nat) (dir : Direction)
    (handle : Nat) : (s.freeDevice index).2.isReleased dir handle = s.isReleased dir handle := by
  unfold isReleased
  rw [handles_freeDevice]

@[simp] theorem isIssued_freeDevice (s : Session δ σ) (index : Nat) (dir : Direction)
    (handle : Nat) : (s.freeDevice index).2.isIssued dir handle = s.isIssued dir handle := by
  unfold isIssued
  rw [handles_freeDevice]

@[simp] theorem isListed_freeDevice (s : Session δ σ) (index : Nat) (dir : Direction)
    (handle : Nat) : (s.freeDevice index).2.isListed dir handle = s.isListed dir handle := by
  unfold isListed
  rw [handles_freeDevice]

/-! ## Handles that come and go -/

@[simp] theorem isKnown_makeStream (s : Session δ σ) (dir : Direction) (index : Nat) :
    (s.makeStream dir).2.isKnown index = s.isKnown index := rfl

@[simp] theorem isLive_makeStream (s : Session δ σ) (dir : Direction) (index : Nat) :
    (s.makeStream dir).2.isLive index = s.isLive index := rfl

@[simp] theorem deviceAt_makeStream (s : Session δ σ) (dir : Direction) (index : Nat) :
    (s.makeStream dir).2.deviceAt index = s.deviceAt index := rfl

@[simp] theorem streamAt_makeStream (s : Session δ σ) (dir other : Direction) (b : Binding) :
    (s.makeStream dir).2.streamAt other b = s.streamAt other b := rfl

theorem row?_makeStream (s : Session δ σ) (dir other : Direction) (handle : Nat) :
    ((s.makeStream dir).2.handles.get other).row? handle =
      if other = dir ∧ handle = (s.handles.get dir).next then
        some ⟨⟨none, false, ErrorSlot.initial⟩, true⟩
      else (s.handles.get other).row? handle := by
  unfold makeStream
  by_cases hd : other = dir
  · subst hd
    simp only [Sides.get_set_self, HandleTable.row?_insert, true_and]
  · simp only [Sides.get_set_of_ne _ _ hd, if_neg fun h : other = dir ∧ _ => hd h.1]

/-- A handle that was just made is as unbound as one that was never made. -/
@[simp] theorem bindingOf_makeStream (s : Session δ σ) (dir other : Direction) (handle : Nat) :
    (s.makeStream dir).2.bindingOf other handle = s.bindingOf other handle := by
  unfold bindingOf
  rw [row?_makeStream]
  split
  · rename_i h
    obtain ⟨rfl, rfl⟩ := h
    rw [HandleTable.row?_next]
    rfl
  · rfl

@[simp] theorem isReleased_makeStream (s : Session δ σ) (dir other : Direction) (handle : Nat) :
    (s.makeStream dir).2.isReleased other handle = s.isReleased other handle := by
  unfold isReleased
  rw [row?_makeStream]
  split
  · rename_i h
    obtain ⟨rfl, rfl⟩ := h
    rw [HandleTable.row?_next]
    rfl
  · rfl

theorem isIssued_makeStream (s : Session δ σ) (dir other : Direction) (handle : Nat) :
    (s.makeStream dir).2.isIssued other handle =
      (decide (other = dir ∧ handle = (s.handles.get dir).next) || s.isIssued other handle) := by
  unfold isIssued
  rw [row?_makeStream]
  by_cases h : other = dir ∧ handle = (s.handles.get dir).next
  · rw [if_pos h]
    simp [h]
  · rw [if_neg h]
    simp [h]

theorem isListed_makeStream (s : Session δ σ) (dir other : Direction) (handle : Nat) :
    (s.makeStream dir).2.isListed other handle =
      (decide (other = dir ∧ handle = (s.handles.get dir).next) || s.isListed other handle) := by
  unfold isListed HandleTable.contains HandleTable.get?
  rw [row?_makeStream]
  by_cases h : other = dir ∧ handle = (s.handles.get dir).next
  · rw [if_pos h]
    simp [h]
  · rw [if_neg h]
    simp [h]

/-- Whether a handle can be taken out of the table, and what is then left. -/
theorem unlistStream_cases (s : Session δ σ) (dir : Direction) (handle : Nat) :
    (s.isListed dir handle ∧ s.unlistStream dir handle =
      (.ok (), { s with handles := s.handles.set dir ((s.handles.get dir).remove handle).2 })) ∨
    (s.isListed dir handle = false ∧
      s.unlistStream dir handle = (.error (.noStreamer dir handle), s)) := by
  unfold unlistStream isListed HandleTable.contains
  cases hr : (s.handles.get dir).get? handle with
  | none =>
    right
    simp [HandleTable.remove, hr]
  | some r =>
    left
    simp [HandleTable.remove, hr]

theorem devices_unlistStream (s : Session δ σ) (dir : Direction) (handle : Nat) :
    (s.unlistStream dir handle).2.devices = s.devices := by
  rcases unlistStream_cases s dir handle with ⟨-, h⟩ | ⟨-, h⟩ <;> rw [h]

@[simp] theorem isKnown_unlistStream (s : Session δ σ) (dir : Direction) (handle index : Nat) :
    (s.unlistStream dir handle).2.isKnown index = s.isKnown index := by
  unfold isKnown
  rw [devices_unlistStream]

@[simp] theorem isLive_unlistStream (s : Session δ σ) (dir : Direction) (handle index : Nat) :
    (s.unlistStream dir handle).2.isLive index = s.isLive index := by
  unfold isLive
  rw [devices_unlistStream]

@[simp] theorem deviceAt_unlistStream (s : Session δ σ) (dir : Direction) (handle index : Nat) :
    (s.unlistStream dir handle).2.deviceAt index = s.deviceAt index := by
  unfold deviceAt
  rw [devices_unlistStream]

@[simp] theorem streamAt_unlistStream (s : Session δ σ) (dir : Direction) (handle : Nat)
    (other : Direction) (b : Binding) :
    (s.unlistStream dir handle).2.streamAt other b = s.streamAt other b := by
  unfold streamAt
  rw [devices_unlistStream]

/-- Taking a handle out of the table leaves its record as it is. -/
theorem record_unlistStream (s : Session δ σ) (dir : Direction) (handle : Nat)
    (dir' : Direction) (handle' : Nat) :
    (((s.unlistStream dir handle).2.handles.get dir').row? handle').map HandleRow.record =
      ((s.handles.get dir').row? handle').map HandleRow.record := by
  rcases unlistStream_cases s dir handle with ⟨-, h⟩ | ⟨-, h⟩
  · rw [h]
    by_cases hd : dir' = dir
    · subst hd
      rw [Sides.get_set_self, HandleTable.row?_remove]
      split
      · cases (s.handles.get dir').row? handle' <;> rfl
      · rfl
    · rw [Sides.get_set_of_ne _ _ hd]
  · rw [h]

/-- Bindings and marks are read off the records. -/
theorem bindingOf_eq_map (s : Session δ σ) (dir : Direction) (handle : Nat) :
    s.bindingOf dir handle =
      (((s.handles.get dir).row? handle).map HandleRow.record).bind StreamRecord.binding := by
  unfold bindingOf
  cases (s.handles.get dir).row? handle <;> rfl

theorem isReleased_eq_map (s : Session δ σ) (dir : Direction) (handle : Nat) :
    s.isReleased dir handle =
      ((((s.handles.get dir).row? handle).map HandleRow.record).map
        StreamRecord.released).getD false := by
  unfold isReleased
  cases (s.handles.get dir).row? handle <;> rfl

@[simp] theorem bindingOf_unlistStream (s : Session δ σ) (dir : Direction) (handle : Nat)
    (dir' : Direction) (handle' : Nat) :
    (s.unlistStream dir handle).2.bindingOf dir' handle' = s.bindingOf dir' handle' := by
  rw [bindingOf_eq_map, record_unlistStream, ← bindingOf_eq_map]

@[simp] theorem isReleased_unlistStream (s : Session δ σ) (dir : Direction) (handle : Nat)
    (dir' : Direction) (handle' : Nat) :
    (s.unlistStream dir handle).2.isReleased dir' handle' = s.isReleased dir' handle' := by
  rw [isReleased_eq_map, record_unlistStream, ← isReleased_eq_map]

@[simp] theorem isIssued_unlistStream (s : Session δ σ) (dir : Direction) (handle : Nat)
    (dir' : Direction) (handle' : Nat) :
    (s.unlistStream dir handle).2.isIssued dir' handle' = s.isIssued dir' handle' := by
  unfold isIssued
  rw [← Option.isSome_map, record_unlistStream, Option.isSome_map]

theorem isListed_unlistStream (s : Session δ σ) (dir : Direction) (handle : Nat)
    (dir' : Direction) (handle' : Nat) :
    (s.unlistStream dir handle).2.isListed dir' handle' =
      (!decide (dir' = dir ∧ handle' = handle) && s.isListed dir' handle') := by
  rcases unlistStream_cases s dir handle with ⟨-, h⟩ | ⟨hl, h⟩
  · rw [h]
    unfold isListed HandleTable.contains
    by_cases hd : dir' = dir
    · subst hd
      rw [Sides.get_set_self, HandleTable.get?_remove]
      by_cases hh : handle' = handle <;> simp [hh]
    · rw [Sides.get_set_of_ne _ _ hd]
      simp [hd]
  · rw [h]
    by_cases hh : dir' = dir ∧ handle' = handle
    · obtain ⟨rfl, rfl⟩ := hh
      simp [hl]
    · simp [hh]

/-! ## The phases of a free -/

@[simp] theorem isKnown_releaseStream (s : Session δ σ) (dir : Direction) (handle index : Nat) :
    (s.releaseStream dir handle).2.isKnown index = s.isKnown index := rfl

@[simp] theorem isLive_releaseStream (s : Session δ σ) (dir : Direction) (handle index : Nat) :
    (s.releaseStream dir handle).2.isLive index = s.isLive index := rfl

@[simp] theorem deviceAt_releaseStream (s : Session δ σ) (dir : Direction) (handle index : Nat) :
    (s.releaseStream dir handle).2.deviceAt index = s.deviceAt index := rfl

@[simp] theorem streamAt_releaseStream (s : Session δ σ) (dir : Direction) (handle : Nat)
    (other : Direction) (b : Binding) :
    (s.releaseStream dir handle).2.streamAt other b = s.streamAt other b := rfl

@[simp] theorem isIssued_releaseStream (s : Session δ σ) (dir : Direction) (handle : Nat)
    (dir' : Direction) (handle' : Nat) :
    (s.releaseStream dir handle).2.isIssued dir' handle' = s.isIssued dir' handle' :=
  isIssued_modifyStream s dir handle _ dir' handle'

@[simp] theorem isListed_releaseStream (s : Session δ σ) (dir : Direction) (handle : Nat)
    (dir' : Direction) (handle' : Nat) :
    (s.releaseStream dir handle).2.isListed dir' handle' = s.isListed dir' handle' :=
  isListed_modifyStream s dir handle _ dir' handle'

/-- The second phase of a free takes out what the handle was bound to. -/
theorem releaseStream_fst (s : Session δ σ) (dir : Direction) (handle : Nat) :
    (s.releaseStream dir handle).1 = s.bindingOf dir handle := by
  rw [bindingOf_eq_map]
  rfl

theorem bindingOf_releaseStream (s : Session δ σ) (dir : Direction) (handle : Nat)
    (dir' : Direction) (handle' : Nat) :
    (s.releaseStream dir handle).2.bindingOf dir' handle' =
      if dir' = dir ∧ handle' = handle then none else s.bindingOf dir' handle' := by
  unfold releaseStream
  rw [bindingOf_modifyStream]
  split
  · cases (s.handles.get dir').row? handle' <;> rfl
  · rfl

/-- A free marks the record of a handle that was given out, and no other. -/
theorem isReleased_releaseStream (s : Session δ σ) (dir : Direction) (handle : Nat)
    (dir' : Direction) (handle' : Nat) :
    (s.releaseStream dir handle).2.isReleased dir' handle' =
      if dir' = dir ∧ handle' = handle then s.isIssued dir' handle'
      else s.isReleased dir' handle' := by
  unfold releaseStream isIssued
  rw [isReleased_modifyStream]
  split
  · cases (s.handles.get dir').row? handle' <;> rfl
  · rfl

theorem isLive_detach (s : Session δ σ) (dir : Direction) (b : Binding) (index : Nat) :
    (s.detach dir b).isLive index = s.isLive index := by
  unfold detach
  split <;> simp

theorem deviceAt_detach (s : Session δ σ) (dir : Direction) (b : Binding) (index : Nat) :
    (s.detach dir b).deviceAt index = s.deviceAt index := by
  unfold detach
  split
  · rfl
  · exact deviceAt_modifyDevice_of_device s b.device index fun _ => rfl

theorem isKnown_detach (s : Session δ σ) (dir : Direction) (b : Binding) (index : Nat) :
    (s.detach dir b).isKnown index = s.isKnown index := by
  unfold detach
  split <;> simp

theorem handles_detach (s : Session δ σ) (dir : Direction) (b : Binding) :
    (s.detach dir b).handles = s.handles := by
  unfold detach
  split <;> rfl

/-- A place that is vacated is empty, and nothing else is touched. -/
theorem streamAt_detach (s : Session δ σ) (dir : Direction) (b : Binding) (dir' : Direction)
    (b' : Binding) :
    (s.detach dir b).streamAt dir' b' =
      if dir' = dir ∧ b' = b then none else s.streamAt dir' b' := by
  unfold detach
  cases hl : s.isLive b.device with
  | false =>
    rw [deviceRecord_of_not_isLive hl]
    dsimp only
    split
    · rename_i h
      exact streamAt_of_not_isLive (h.2 ▸ hl)
    · rfl
  | true =>
    obtain ⟨r, hr⟩ := exists_deviceRecord hl
    rw [hr]
    dsimp only
    by_cases hdir : dir' = dir
    · subst hdir
      rw [streamAt_modifyDevice_self s b.device fun _ => rfl]
      simp only [Slots.get?_detach]
      by_cases hb : b'.device = b.device
      · rw [if_pos hb]
        by_cases ho : b'.offset = b.offset
        · have he : b' = b := by cases b; cases b'; simp_all
          simp [he]
        · simp only [if_neg ho]
          rw [if_neg fun h => ho (congrArg Binding.offset h.2)]
          rfl
      · rw [if_neg hb, if_neg fun h => hb (congrArg Binding.device h.2)]
    · rw [streamAt_modifyDevice_of_ne s b.device (fun _ => rfl) hdir, if_neg fun h => hdir h.1]

@[simp] theorem isKnown_vacate (s : Session δ σ) (dir : Direction) (held : Option Binding)
    (index : Nat) : (s.vacate dir held).isKnown index = s.isKnown index := by
  cases held with
  | none => rfl
  | some b => exact isKnown_detach s dir b index

@[simp] theorem isLive_vacate (s : Session δ σ) (dir : Direction) (held : Option Binding)
    (index : Nat) : (s.vacate dir held).isLive index = s.isLive index := by
  cases held with
  | none => rfl
  | some b => exact isLive_detach s dir b index

@[simp] theorem deviceAt_vacate (s : Session δ σ) (dir : Direction) (held : Option Binding)
    (index : Nat) : (s.vacate dir held).deviceAt index = s.deviceAt index := by
  cases held with
  | none => rfl
  | some b => exact deviceAt_detach s dir b index

theorem handles_vacate (s : Session δ σ) (dir : Direction) (held : Option Binding) :
    (s.vacate dir held).handles = s.handles := by
  cases held with
  | none => rfl
  | some b => exact handles_detach s dir b

theorem streamAt_vacate (s : Session δ σ) (dir : Direction) (held : Option Binding)
    (dir' : Direction) (b : Binding) :
    (s.vacate dir held).streamAt dir' b =
      if dir' = dir ∧ held = some b then none else s.streamAt dir' b := by
  cases held with
  | none => simp [vacate]
  | some b' =>
    unfold vacate
    rw [streamAt_detach]
    simp only [Option.some.injEq, eq_comm]

@[simp] theorem bindingOf_vacate (s : Session δ σ) (dir : Direction) (held : Option Binding)
    (dir' : Direction) (handle : Nat) :
    (s.vacate dir held).bindingOf dir' handle = s.bindingOf dir' handle := by
  unfold bindingOf
  rw [handles_vacate]

@[simp] theorem isReleased_vacate (s : Session δ σ) (dir : Direction) (held : Option Binding)
    (dir' : Direction) (handle : Nat) :
    (s.vacate dir held).isReleased dir' handle = s.isReleased dir' handle := by
  unfold isReleased
  rw [handles_vacate]

@[simp] theorem isIssued_vacate (s : Session δ σ) (dir : Direction) (held : Option Binding)
    (dir' : Direction) (handle : Nat) :
    (s.vacate dir held).isIssued dir' handle = s.isIssued dir' handle := by
  unfold isIssued
  rw [handles_vacate]

@[simp] theorem isListed_vacate (s : Session δ σ) (dir : Direction) (held : Option Binding)
    (dir' : Direction) (handle : Nat) :
    (s.vacate dir held).isListed dir' handle = s.isListed dir' handle := by
  unfold isListed
  rw [handles_vacate]

theorem isKnown_freeStream (s : Session δ σ) (dir : Direction) (handle index : Nat) :
    (s.freeStream dir handle).2.isKnown index = s.isKnown index := by
  have hunlist := isKnown_unlistStream s dir handle index
  unfold freeStream
  rcases unlistStream_cases s dir handle with ⟨-, h⟩ | ⟨-, h⟩
  · rw [h] at hunlist ⊢
    exact (isKnown_vacate _ dir _ index).trans hunlist
  · rw [h]

end SoftRadio.Session
