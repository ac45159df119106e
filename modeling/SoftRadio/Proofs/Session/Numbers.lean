import SoftRadio.Proofs.Session.LastError
import SoftRadio.Proofs.Session.Operation

/-!
# The numbers that a session gives out

Devices, receive handles and transmit handles are numbered each by a counter of their own.  What
there is to say of them is said for all three kinds at once (`Kind`), through the number that comes
next (`next`), through the parties that were ever made (`wasMade`), and through those that are
there (`has`).

* `wasMade_iff`: what was made has the numbers from one up to the next one.
* `NothingNew`: what all operations keep to that make nothing, however they end.
* `grown_run`, `grown_runAll`: a run gives out the numbers from the next one on, one after the
  other, and whatever is there after it was there before or has one of these numbers.
-/

namespace SoftRadio.Session

variable {δ : Type} {σ : Direction → Type} {β ω : Type}

/-- What a number is given to. -/
inductive Kind where
  | device
  | stream (dir : Direction)
  deriving DecidableEq

/-- Whoever of a kind has a number. -/
def Kind.party : Kind → Nat → Party
  | .device, number => .device number
  | .stream dir, number => .stream dir number

namespace Party

def kind : Party → Kind
  | .device _ => .device
  | .stream dir _ => .stream dir

def number : Party → Nat
  | .device index => index
  | .stream _ handle => handle

@[simp] theorem kind_party (k : Kind) (number : Nat) : (k.party number).kind = k := by
  cases k <;> rfl

@[simp] theorem number_party (k : Kind) (number : Nat) : (k.party number).number = number := by
  cases k <;> rfl

end Party

/-- The number that the next party of a kind gets. -/
def next (s : Session δ σ) : Kind → Nat
  | .device => s.devices.next
  | .stream dir => (s.handles.get dir).next

/-- Whether a party was ever made, there or not. -/
def wasMade (s : Session δ σ) : Party → Bool
  | .device index => s.isKnown index
  | .stream dir handle => s.isIssued dir handle

/-- What was made has the numbers from one up to the next one. -/
theorem wasMade_iff {s : Session δ σ} {x : Party} :
    s.wasMade x ↔ 1 ≤ x.number ∧ x.number < s.next x.kind := by
  cases x with
  | device index => exact s.devices.isSome_row?_iff index
  | stream dir handle => exact (s.handles.get dir).isSome_row?_iff handle

@[simp] theorem next_initial (k : Kind) : (initial : Session δ σ).next k = 1 := by
  cases k with
  | device => rfl
  | stream dir => cases dir <;> rfl

theorem one_le_next (s : Session δ σ) (k : Kind) : 1 ≤ s.next k := by
  cases k <;> exact Nat.le_add_left 1 _

/-! ## Operations that make nothing -/

/-- Nothing was made, and nothing has come back. -/
structure NothingNew (s s' : Session δ σ) : Prop where
  made : ∀ x, s'.wasMade x = s.wasMade x
  has : ∀ x, s'.has x → s.has x

namespace NothingNew

variable {s s' s'' : Session δ σ}

theorem refl (s : Session δ σ) : NothingNew s s := ⟨fun _ => rfl, fun _ h => h⟩

theorem trans (h : NothingNew s s') (h' : NothingNew s' s'') : NothingNew s s'' :=
  ⟨fun x => (h'.made x).trans (h.made x), fun x hx => h.has x (h'.has x hx)⟩

/-- From the answers about devices and about handles. -/
theorem of_answers (hknown : ∀ i, s'.isKnown i = s.isKnown i)
    (hissued : ∀ dir handle, s'.isIssued dir handle = s.isIssued dir handle)
    (hlive : ∀ i, s'.isLive i → s.isLive i)
    (hlisted : ∀ dir handle, s'.isListed dir handle → s.isListed dir handle) :
    NothingNew s s' := by
  constructor
  case made =>
    intro x
    cases x with
    | device index => exact hknown index
    | stream dir handle => exact hissued dir handle
  case has =>
    intro x hx
    cases x with
    | device index => exact hlive index hx
    | stream dir handle => exact hlisted dir handle hx

/-- The counters tell what was made, so that they have not moved. -/
theorem next (h : NothingNew s s') (k : Kind) : s'.next k = s.next k := by
  have hiff : ∀ n, 1 ≤ n ∧ n < s'.next k ↔ 1 ≤ n ∧ n < s.next k := by
    intro n
    have hafter := wasMade_iff (s := s') (x := k.party n)
    have hbefore := wasMade_iff (s := s) (x := k.party n)
    rw [Party.kind_party, Party.number_party] at hafter hbefore
    rw [← hafter, ← hbefore, h.made]
  have hone := one_le_next s k
  have hone' := one_le_next s' k
  have hup := hiff (s.next k)
  have hdown := hiff (s'.next k)
  omega

theorem of_sameView (h : SameView s s') : NothingNew s s' :=
  of_answers h.known h.issued (fun i hi => (h.live i) ▸ hi) fun dir i hi => (h.listed dir i) ▸ hi

theorem of_streamPut {dir : Direction} {b : Binding} {device : δ} {stream : σ dir}
    (h : StreamPut s s' dir b device stream) : NothingNew s s' :=
  of_answers h.known h.issued (fun i hi => (h.live i) ▸ hi) fun dir i hi => (h.listed dir i) ▸ hi

end NothingNew

theorem nothingNew_freeDevice (s : Session δ σ) (index : Nat) :
    NothingNew s (s.freeDevice index).2 := by
  refine .of_answers (isKnown_freeDevice s index) (fun _ _ => by simp) ?_
    fun _ _ h => by simpa using h
  intro i hi
  rw [isLive_freeDevice, Bool.and_eq_true] at hi
  exact hi.2

theorem nothingNew_unlistStream (s : Session δ σ) (dir : Direction) (handle : Nat) :
    NothingNew s (s.unlistStream dir handle).2 := by
  refine .of_answers (fun _ => by simp) (fun _ _ => by simp) (fun _ h => by simpa using h) ?_
  intro dir' handle' h
  rw [isListed_unlistStream, Bool.and_eq_true] at h
  exact h.2

theorem nothingNew_vacate (s : Session δ σ) (dir : Direction) (held : Option Binding) :
    NothingNew s (s.vacate dir held) :=
  .of_answers (fun _ => by simp) (fun _ _ => by simp) (fun _ h => by simpa using h)
    fun _ _ h => by simpa using h

theorem nothingNew_modifyDevice (s : Session δ σ) (index : Nat)
    (f : DeviceRecord δ σ → DeviceRecord δ σ) : NothingNew s (s.modifyDevice index f) :=
  .of_answers (fun _ => by simp) (fun _ _ => by simp) (fun _ h => by simpa using h)
    fun _ _ h => by simpa using h

theorem nothingNew_modifyStream (s : Session δ σ) (dir : Direction) (handle : Nat)
    (f : StreamRecord → StreamRecord) : NothingNew s (s.modifyStream dir handle f) :=
  .of_answers (fun _ => by simp) (fun _ _ => by simp) (fun _ h => by simpa using h)
    fun _ _ h => by simpa using h

theorem nothingNew_freeStream (s : Session δ σ) (dir : Direction) (handle : Nat) :
    NothingNew s (s.freeStream dir handle).2 := by
  have hunlist := nothingNew_unlistStream s dir handle
  unfold freeStream
  rcases unlistStream_cases s dir handle with ⟨-, h⟩ | ⟨-, h⟩
  · rw [h] at hunlist ⊢
    exact (hunlist.trans (nothingNew_modifyStream _ dir handle _)).trans (nothingNew_vacate _ dir _)
  · rw [h]
    exact .refl s

theorem nothingNew_commit (s : Session δ σ) (dir : Direction) (index handle : Nat)
    (stream : σ dir) : NothingNew s (s.commit dir index handle stream).2 := by
  unfold commit
  cases ((s.handles.get dir).row? handle).map HandleRow.record with
  | none => exact .refl s
  | some record =>
    dsimp only
    split
    · exact .refl s
    · have hvacate := nothingNew_vacate s dir record.binding
      split
      · exact hvacate
      · exact (hvacate.trans (nothingNew_modifyDevice _ index _)).trans
          (nothingNew_modifyStream _ dir handle _)

/-- An attach makes nothing but what its build makes. -/
theorem nothingNew_attach {s : Session δ σ} {dir : Direction} {index handle : Nat}
    (h : s.resolveAttach dir index handle = .ok ())
    (build : Session δ σ → Except Fault (σ dir) × Session δ σ) :
    NothingNew (build s).2 (s.attach dir index handle build).2 := by
  unfold attach
  rw [h]
  dsimp only
  have hrecord := nothingNew_modifyDevice (build s).2 index fun r =>
    { r with lastError := ErrorSlot.ofResult (guardedResult (build s).1) }
  cases hb : guardedResult (build s).1 with
  | error e =>
    rw [hb] at hrecord
    exact hrecord
  | ok stream =>
    rw [hb] at hrecord
    exact hrecord.trans (nothingNew_commit _ dir index handle stream)

theorem nothingNew_deviceCall (s : Session δ σ) (index : Nat) (f : δ → Except Fault β × δ) :
    NothingNew s (s.deviceCall index f).2 :=
  .of_sameView (sameView_deviceCall s index f)

theorem nothingNew_streamRun (s : Session δ σ) (dir : Direction) (handle : Nat)
    (f : δ → σ dir → (Except Fault β × ω) × δ × σ dir) :
    NothingNew s (s.streamRun dir handle f).2 := by
  rcases streamRun_cases s dir handle f with ⟨b, v, device, v', -, h⟩ | h
  · exact .of_streamPut h
  · exact .of_sameView h

theorem nothingNew_clear (s : Session δ σ) : NothingNew s s.clear :=
  .of_answers (fun _ => by simp) (fun _ _ => by simp) (fun _ h => by simp at h)
    fun _ _ h => by simp at h

/-! ## Runs -/

/-- The number that was given out to somebody of a kind. -/
def Event.number? (k : Kind) : Event δ σ → Option Nat
  | .deviceMade index _ => if k = .device then some index else none
  | .streamMade dir handle => if k = .stream dir then some handle else none
  | _ => none

/-- The numbers that were given out to a kind, in order. -/
def numbers (k : Kind) (log : List (Event δ σ)) : List Nat := log.filterMap (Event.number? k)

theorem numbers_append (k : Kind) (log log' : List (Event δ σ)) :
    numbers k (log ++ log') = numbers k log ++ numbers k log' :=
  List.filterMap_append

/-- What a log has to do with the counters: it gives out the numbers from the next one on, and
whatever is there at the end was there at the start or has one of these numbers. -/
structure Grown (s s' : Session δ σ) (log : List (Event δ σ)) : Prop where
  numbers : ∀ k, numbers k log = List.range' (s.next k) (numbers k log).length
  next : ∀ k, s'.next k = s.next k + (Session.numbers k log).length
  has : ∀ x, s'.has x → s.has x ∨ x.number ∈ Session.numbers x.kind log

namespace Grown

variable {s s' s'' : Session δ σ} {log log' : List (Event δ σ)}

theorem of_nothingNew (h : NothingNew s s') (hlog : ∀ k, Session.numbers k log = []) :
    Grown s s' log := by
  constructor
  case numbers =>
    intro k
    rw [hlog]
    rfl
  case next =>
    intro k
    rw [hlog]
    exact h.next k
  case has => exact fun x hx => Or.inl (h.has x hx)

theorem trans (h : Grown s s' log) (h' : Grown s' s'' log') : Grown s s'' (log ++ log') := by
  constructor
  case numbers =>
    intro k
    rw [numbers_append, List.length_append, ← List.range'_append_1, ← h.numbers, ← h.next,
      ← h'.numbers]
  case next =>
    intro k
    rw [numbers_append, List.length_append, h'.next, h.next, Nat.add_assoc]
  case has =>
    intro x hx
    rw [numbers_append, List.mem_append]
    rcases h'.has x hx with hx' | hx'
    · rcases h.has x hx' with hx'' | hx''
      · exact Or.inl hx''
      · exact Or.inr (Or.inl hx'')
    · exact Or.inr (Or.inr hx')

/-- Whoever was made before and is gone does not come back. -/
theorem stays_gone (h : Grown s s' log) {x : Party} (hmade : s.wasMade x)
    (hgone : s.has x = false) : s'.has x = false := by
  rw [Bool.eq_false_iff]
  intro hx
  rcases h.has x hx with hthere | hnew
  · rw [hgone] at hthere
    cases hthere
  · rw [h.numbers, List.mem_range'_1] at hnew
    have hlt := (wasMade_iff.1 hmade).2
    omega

/-- Whoever was made stays made. -/
theorem stays_made (h : Grown s s' log) {x : Party} (hmade : s.wasMade x) : s'.wasMade x := by
  rw [wasMade_iff] at hmade ⊢
  have hnext := h.next x.kind
  omega

end Grown

theorem grown_makeDevice (s : Session δ σ) (device : δ) :
    Grown s (s.addDevice device).2 [.deviceMade (s.addDevice device).1 device] := by
  have hnumber : (s.addDevice device).1 = s.next .device := rfl
  constructor
  case numbers =>
    intro k
    cases k <;> rfl
  case next =>
    intro k
    cases k <;> simp [numbers, Event.number?, next, addDevice]
  case has =>
    intro x hx
    cases x with
    | device index =>
      have hlive : (s.addDevice device).2.isLive index := hx
      rw [isLive_addDevice, Bool.or_eq_true, beq_iff_eq] at hlive
      rcases hlive with hnew | hold
      · right
        simp [numbers, Event.number?, Party.kind, Party.number, hnumber, next, hnew]
      · exact Or.inl hold
    | stream dir handle => exact Or.inl hx

theorem grown_makeStream (s : Session δ σ) (dir : Direction) :
    Grown s (s.makeStream dir).2 [.streamMade dir (s.makeStream dir).1] := by
  have hnumber : (s.makeStream dir).1 = s.next (.stream dir) := rfl
  constructor
  case numbers =>
    intro k
    by_cases hk : k = .stream dir
    · subst hk
      simp [numbers, Event.number?, hnumber]
    · simp [numbers, Event.number?, hk]
  case next =>
    intro k
    cases k with
    | device => simp [numbers, Event.number?, next, makeStream]
    | stream dir' =>
      by_cases hd : dir' = dir
      · subst hd
        simp [numbers, Event.number?, next, makeStream]
      · simp [numbers, Event.number?, next, makeStream, hd, Sides.get_set_of_ne _ _ hd]
  case has =>
    intro x hx
    cases x with
    | device index => exact Or.inl hx
    | stream dir' handle =>
      have hlisted : (s.makeStream dir).2.isListed dir' handle := hx
      rw [isListed_makeStream, Bool.or_eq_true, decide_eq_true_eq] at hlisted
      rcases hlisted with ⟨rfl, hnew⟩ | hold
      · right
        simp [numbers, Event.number?, Party.kind, Party.number, hnumber, next, hnew]
      · exact Or.inl hold

/-- What an attach notes about itself gives out no number. -/
@[simp] theorem numbers_attachedEvents (k : Kind) (dir : Direction) (index handle : Nat)
    (built : Except Fault (σ dir)) (result : Except Error Nat) :
    numbers k (attachedEvents dir index handle built result : List (Event δ σ)) = [] := by
  cases built <;> cases result <;> rfl

mutual

theorem grown_run (op : Op δ σ) (s : Session δ σ) : Grown s (op.run s).2 (op.run s).1 := by
  match op with
  | .makeDevice (.ok device) => exact grown_makeDevice s device
  | .makeDevice (.error f) => exact .of_nothingNew (.refl s) fun _ => rfl
  | .freeDevice index => exact .of_nothingNew (nothingNew_freeDevice s index) fun _ => rfl
  | .makeStream dir => exact grown_makeStream s dir
  | .freeStream dir handle =>
    exact .of_nothingNew (nothingNew_freeStream s dir handle) fun _ => rfl
  | .attach dir index handle during built =>
    unfold Op.run
    cases hstart : s.resolveAttach dir index handle with
    | error e =>
      dsimp only
      rw [attach_of_resolveAttach_eq_error hstart]
      exact .of_nothingNew (.refl s) fun _ => rfl
    | ok =>
      -- the build's own calls come first, and the rest of the attach makes nothing
      have hduring := grown_runAll during s
      have hrest := nothingNew_attach hstart fun _ =>
        (built (runAll during s).2, (runAll during s).2)
      exact hduring.trans (.of_nothingNew hrest fun _ => by simp)
  | .deviceCall index f => exact .of_nothingNew (nothingNew_deviceCall s index f) fun _ => rfl
  | .streamCall dir handle f =>
    exact .of_nothingNew (nothingNew_streamRun s dir handle f) fun _ => rfl
  | .clear => exact .of_nothingNew (nothingNew_clear s) fun _ => rfl

theorem grown_runAll (ops : List (Op δ σ)) (s : Session δ σ) :
    Grown s (runAll ops s).2 (runAll ops s).1 := by
  match ops with
  | [] => exact .of_nothingNew (.refl s) fun _ => rfl
  | op :: ops => exact (grown_run op s).trans (grown_runAll ops (op.run s).2)

end

/-- From the start on the numbers of every kind are one, two, three, and so on. -/
theorem numbers_runAll (ops : List (Op δ σ)) (k : Kind) :
    numbers k (runAll ops initial).1 =
      List.range' 1 (numbers k (runAll ops (initial : Session δ σ)).1).length := by
  have h := (grown_runAll ops initial).numbers k
  rw [next_initial] at h
  exact h

/-- Whoever was given a number in a run was made, and nobody else was. -/
theorem wasMade_runAll_iff (ops : List (Op δ σ)) (x : Party) :
    (runAll ops initial).2.wasMade x ↔
      x.number ∈ numbers x.kind (runAll ops (initial : Session δ σ)).1 := by
  rw [wasMade_iff, (grown_runAll ops initial).next, next_initial, numbers_runAll,
    List.mem_range'_1, List.length_range']

end SoftRadio.Session
