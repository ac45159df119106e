import SoftRadio.Proofs.Session.LastError
import SoftRadio.Proofs.Session.Operation

/-!
# The latest call of everybody

A session keeps one text for every device and every stream handle.  A run is told here once more,
by the calls made in it: who was called, what the caller got back, and who is new (`Remark`).
From that alone it can be said what everybody's text has to be: nothing before the first call,
and after that what the latest one came to (`latest`).

* `Tells`: the texts of a session are those that the remarks lead to expect.
* `tells_run`, `tells_runAll`: every operation keeps it so, with whatever the build of an attach
  calls meanwhile.
* `lastError_eq_latest`: so the texts read after any run are right, and calls through others do
  not change them.
-/

namespace SoftRadio.Session

/-- How a call has ended for its caller. -/
inductive Outcome where
  | done
  | failed (e : Error)
  /-- The driver crashed, and the crash was caught. -/
  | panicked (payload : String)

namespace Outcome

def ofResult {β : Type} : Except Error β → Outcome
  | .ok _ => done
  | .error (.crashed payload) => panicked payload
  | .error e => failed e

/-- The text that is left of a call. -/
def text : Outcome → String
  | done => "None"
  | failed e => e.message
  | panicked payload => "Driver panicked: " ++ payload

theorem text_ofResult {β : Type} (result : Except Error β) :
    (ofResult result).text = ErrorSlot.ofResult result := by
  cases result with
  | ok v => rfl
  | error e => cases e <;> rfl

end Outcome

/-- The text that is expected of a party whose latest call ended like this. -/
def expectedText : Option Outcome → String
  | none => ""
  | some o => o.text

/-- What there is to say of a party: it is new, or a call through it has ended. -/
inductive Remark where
  | made (x : Party)
  | called (x : Party) (outcome : Outcome)

def Remark.party : Remark → Party
  | .made x => x
  | .called x _ => x

/-- How the latest call through a party has ended, if there was one since it was made. -/
def latest (x : Party) (remarks : List Remark) : Option Outcome :=
  remarks.foldl (fun last remark => match remark with
    | .made y => if x = y then none else last
    | .called y outcome => if x = y then some outcome else last) none

theorem latest_append_made (x y : Party) (remarks : List Remark) :
    latest x (remarks ++ [.made y]) = if x = y then none else latest x remarks := by
  unfold latest
  rw [List.foldl_append]
  rfl

theorem latest_append_called (x y : Party) (outcome : Outcome) (remarks : List Remark) :
    latest x (remarks ++ [.called y outcome]) =
      if x = y then some outcome else latest x remarks := by
  unfold latest
  rw [List.foldl_append]
  rfl

/-- What is said of others does not matter. -/
theorem latest_append_of_ne {x : Party} (remarks others : List Remark)
    (h : ∀ remark ∈ others, remark.party ≠ x) :
    latest x (remarks ++ others) = latest x remarks := by
  induction others generalizing remarks with
  | nil => rw [List.append_nil]
  | cons remark others ih =>
    have hne : x ≠ remark.party := fun hx => h remark List.mem_cons_self hx.symm
    have hrest := ih (remarks ++ [remark]) fun other ho => h other (List.mem_cons_of_mem _ ho)
    rw [List.append_assoc, List.singleton_append] at hrest
    rw [hrest]
    cases remark with
    | made y =>
      rw [latest_append_made]
      exact if_neg hne
    | called y outcome =>
      rw [latest_append_called]
      exact if_neg hne

variable {δ : Type} {σ : Direction → Type}

mutual

/-- The remarks on one operation.  A call through a device is a call on it, or the build of an
attach that has found its device and its handle; a call through a handle is a call on its stream,
whether the stream is found or not. -/
def Op.remarks : Op δ σ → Session δ σ → List Remark
  | .makeDevice (.ok device), s => [.made (.device (s.addDevice device).1)]
  | .makeDevice (.error _), _ => []
  | .freeDevice _, _ => []
  | .makeStream dir, s => [.made (.stream dir (s.makeStream dir).1)]
  | .freeStream _ _, _ => []
  | .attach dir index handle during built, s =>
    match s.resolveAttach dir index handle with
    | .error _ => []
    | .ok () => remarksOn during s ++
      [.called (.device index) (.ofResult (guardedResult (built (runAll during s).2)))]
  | .deviceCall index f, s => [.called (.device index) (.ofResult (s.deviceCall index f).1)]
  | .streamCall dir handle f, s =>
    [.called (.stream dir handle) (.ofResult (s.streamRun dir handle f).1.1)]
  | .clear, _ => []

/-- The remarks on a run, in order. -/
def remarksOn : List (Op δ σ) → Session δ σ → List Remark
  | [], _ => []
  | op :: ops, s => op.remarks s ++ remarksOn ops (op.run s).2

end

theorem remarksOn_append (ops ops' : List (Op δ σ)) (s : Session δ σ) :
    remarksOn (ops ++ ops') s = remarksOn ops s ++ remarksOn ops' (runAll ops s).2 := by
  induction ops generalizing s with
  | nil => rfl
  | cons op ops ih =>
    show op.remarks s ++ remarksOn (ops ++ ops') (op.run s).2 = _
    rw [ih, ← List.append_assoc]
    rfl

/-! ## One step -/

/-- The texts of a session are those that the remarks lead to expect. -/
def Tells (s : Session δ σ) (remarks : List Remark) : Prop :=
  ∀ x text, s.slot x = some text → text = expectedText (latest x remarks)

theorem tells_initial : Tells (initial : Session δ σ) [] := by
  intro x text h
  rw [slot_initial] at h
  cases h

namespace Tells

variable {s s' : Session δ σ} {remarks : List Remark}

/-- No text is new. -/
theorem of_slot_le (h : Tells s remarks)
    (hslot : ∀ x text, s'.slot x = some text → s.slot x = some text) : Tells s' remarks :=
  fun x text ht => h x text (hslot x text ht)

/-- Somebody is new. -/
theorem made (h : Tells s remarks) {y : Party}
    (hslot : ∀ x, s'.slot x = if x = y then some ErrorSlot.initial else s.slot x) :
    Tells s' (remarks ++ [.made y]) := by
  intro x text ht
  rw [hslot] at ht
  rw [latest_append_made]
  split at ht
  · rename_i hx
    cases ht
    rw [if_pos hx]
    rfl
  · rename_i hx
    rw [if_neg hx]
    exact h x text ht

/-- Somebody's call has ended. -/
theorem called (h : Tells s remarks) {y : Party} {β : Type} {result : Except Error β}
    (hslot : ∀ x, s'.slot x =
      if x = y then (s.slot x).map fun _ => ErrorSlot.ofResult result else s.slot x) :
    Tells s' (remarks ++ [.called y (.ofResult result)]) := by
  intro x text ht
  rw [hslot] at ht
  rw [latest_append_called]
  split at ht
  · rename_i hx
    obtain ⟨-, -, rfl⟩ := Option.map_eq_some_iff.1 ht
    rw [if_pos hx]
    exact (Outcome.text_ofResult result).symm
  · rename_i hx
    rw [if_neg hx]
    exact h x text ht

end Tells

/-- Taking somebody out gives nobody a new text. -/
theorem slot_le_of_taken {s s' : Session δ σ} {y : Party}
    (hslot : ∀ x, s'.slot x = if x = y then none else s.slot x) (x : Party) (text : String)
    (h : s'.slot x = some text) : s.slot x = some text := by
  rw [hslot] at h
  split at h
  · cases h
  · exact h

/-! ## Runs -/

mutual

/-- One operation keeps the texts as expected. -/
theorem tells_run (op : Op δ σ) (s : Session δ σ) (remarks : List Remark)
    (h : Tells s remarks) : Tells (op.run s).2 (remarks ++ op.remarks s) := by
  match op with
  | .makeDevice (.ok device) => exact h.made (slot_addDevice s device)
  | .makeDevice (.error f) =>
    rw [show (Op.makeDevice (.error f)).remarks s = [] from rfl, List.append_nil]
    exact h
  | .freeDevice index =>
    rw [show (Op.freeDevice index).remarks s = [] from rfl, List.append_nil]
    exact h.of_slot_le (slot_le_of_taken (slot_freeDevice s index))
  | .makeStream dir => exact h.made (slot_makeStream s dir)
  | .freeStream dir handle =>
    rw [show (Op.freeStream dir handle).remarks s = [] from rfl, List.append_nil]
    exact h.of_slot_le (slot_le_of_taken (slot_freeStream s dir handle))
  | .attach dir index handle during built =>
    unfold Op.run Op.remarks
    cases hstart : s.resolveAttach dir index handle with
    | error e =>
      dsimp only
      rw [attach_of_resolveAttach_eq_error hstart, List.append_nil]
      exact h
    | ok =>
      -- the build's own calls come first, and then what the build itself came to
      have hduring := tells_runAll during s remarks h
      dsimp only
      rw [← List.append_assoc]
      exact hduring.called (slot_attach hstart _)
  | .deviceCall index f => exact h.called (slot_deviceCall s index f)
  | .streamCall dir handle f => exact h.called (slot_streamRun s dir handle f)
  | .clear =>
    intro x text ht
    have hnone : s.clear.slot x = none := slot_clear s x
    rw [show (Op.clear.run s).2 = s.clear from rfl, hnone] at ht
    cases ht

theorem tells_runAll (ops : List (Op δ σ)) (s : Session δ σ) (remarks : List Remark)
    (h : Tells s remarks) : Tells (runAll ops s).2 (remarks ++ remarksOn ops s) := by
  match ops with
  | [] =>
    rw [show remarksOn [] s = [] from rfl, List.append_nil]
    exact h
  | op :: ops =>
    have hrest := tells_runAll ops (op.run s).2 _ (tells_run op s remarks h)
    rw [List.append_assoc] at hrest
    exact hrest

end

theorem Tells.lastError_eq {s : Session δ σ} {remarks : List Remark} (h : Tells s remarks)
    {x : Party} (hx : s.has x) : s.lastError x = .ok (expectedText (latest x remarks)) := by
  obtain ⟨text, ht⟩ := exists_slot hx
  rw [lastError_eq_ok_iff, ht, h x text ht]

/-- After any run, what is read of a device or a handle that is there tells how the latest call
through it has ended, and is empty if there was none since it was made.  Whatever is then done
without a call through it leaves the text as it is. -/
theorem lastError_eq_latest (ops : List (Op δ σ)) (x : Party)
    (hx : (runAll ops initial).2.has x) :
    (runAll ops initial).2.lastError x = .ok (match latest x (remarksOn ops initial) with
      | none => ""
      | some .done => "None"
      | some (.failed e) => e.message
      | some (.panicked payload) => "Driver panicked: " ++ payload) ∧
    ∀ others, (∀ remark ∈ remarksOn others (runAll ops initial).2, remark.party ≠ x) →
      (runAll (ops ++ others) initial).2.has x →
      (runAll (ops ++ others) initial).2.lastError x = (runAll ops initial).2.lastError x := by
  have htells : ∀ ops : List (Op δ σ), Tells (runAll ops initial).2 (remarksOn ops initial) :=
    fun ops => tells_runAll ops initial [] tells_initial
  constructor
  · rw [(htells ops).lastError_eq hx]
    cases latest x (remarksOn ops initial) with
    | none => rfl
    | some outcome => cases outcome <;> rfl
  · intro others hothers hx'
    rw [(htells ops).lastError_eq hx, (htells (ops ++ others)).lastError_eq hx',
      remarksOn_append, latest_append_of_ne _ _ hothers]

/-- A device keeps the crash of its driver while an attach builds on another one, and a handle that
is not attached keeps the refusal. -/
theorem kept_texts :
    let ops : List (Op Unit fun _ => Nat) :=
      [.makeDevice (.ok ()), .makeDevice (.ok ()), .makeStream .rx,
        .deviceCall (β := Unit) 1 fun device => (crash "out of range", device),
        .streamCall (β := Unit) .rx 1 fun device stream => ((.ok (), ()), device, stream)]
    let others : List (Op Unit fun _ => Nat) := [.attach .rx 2 1 [] fun _ => .ok 10]
    (runAll ops initial).2.lastError (.device 1) = .ok "Driver panicked: out of range" ∧
      (runAll ops initial).2.lastError (.device 2) = .ok "" ∧
      (runAll ops initial).2.lastError (.stream .rx 1) =
        .ok "Invalid streamer: rx streamer is not attached" ∧
      (runAll (ops ++ others) initial).2.lastError (.device 1) =
        .ok "Driver panicked: out of range" := by
  intro ops others
  have hfirst := lastError_eq_latest ops (.device 1) (by decide)
  refine ⟨hfirst.1, (lastError_eq_latest ops (.device 2) (by decide)).1,
    (lastError_eq_latest ops (.stream .rx 1) (by decide)).1, ?_⟩
  rw [hfirst.2 others ?_ (by decide)]
  · exact hfirst.1
  · intro remark hremark
    cases List.mem_singleton.1 hremark
    decide

end SoftRadio.Session
