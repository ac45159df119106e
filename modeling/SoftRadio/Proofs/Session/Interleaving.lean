import SoftRadio.Proofs.Session.View

/-!
# Calls whose phases run between each other

Attaching and freeing are made of phases, and between two phases of one call the phases of any
other calls may run: other attaches and frees, on the same handle too, and everything that is
done in one go.  `Traffic` is a session with the calls under way on it, and `Traffic.step` runs
one phase.  The calls are told apart by numbers; a phase whose call is not ready for it does
nothing, so that every list of phases is a run.

* `run_attach`, `run_free`: the phases of one call in a row are `Session.attach` and
  `Session.freeStream`, whatever a build lets run meanwhile.

What holds of every run is in `Proofs.Session.Quiescence`.
-/

namespace SoftRadio.Session

/-- How far a call has come: an attach that has found its device and handle, or also has its
stream; a free that has taken its handle out of the table, or also the binding out of the
record. -/
inductive Underway (σ : Direction → Type) where
  | building (dir : Direction) (index handle : Nat)
  | built (dir : Direction) (index handle : Nat) (stream : σ dir)
  | unlisted (dir : Direction) (handle : Nat)
  | released (dir : Direction) (held : Option Binding)

/-- One phase of a call, or a call that has only one. -/
inductive Phase (δ : Type) (σ : Direction → Type) where
  | makeDevice (device : δ)
  | freeDevice (index : Nat)
  | makeStream (dir : Direction)
  | startAttach (call : Nat) (dir : Direction) (index handle : Nat)
  | endBuild (call : Nat) (built : (dir : Direction) → Except Fault (σ dir))
  | commit (call : Nat)
  | unlist (call : Nat) (dir : Direction) (handle : Nat)
  | release (call : Nat)
  | vacate (call : Nat)
  | deviceCall (index : Nat) (f : δ → Except Fault Unit × δ)
  | streamCall (dir : Direction) (handle : Nat)
      (f : δ → σ dir → (Except Fault Unit × Unit) × δ × σ dir)
  | clear

/-- A session and, by their numbers, the calls under way on it. -/
structure Traffic (δ : Type) (σ : Direction → Type) where
  session : Session δ σ
  underway : Nat → Option (Underway σ)

namespace Traffic

variable {δ : Type} {σ : Direction → Type}

def initial : Traffic δ σ := ⟨Session.initial, fun _ => none⟩

/-- The same traffic with one call elsewhere. -/
def put (t : Traffic δ σ) (call : Nat) (u : Option (Underway σ)) : Traffic δ σ :=
  { t with underway := fun number => if number = call then u else t.underway number }

/-- The same calls on another session. -/
def on (t : Traffic δ σ) (s : Session δ σ) : Traffic δ σ := { t with session := s }

def step (t : Traffic δ σ) : Phase δ σ → Traffic δ σ
  | .makeDevice device => t.on (t.session.addDevice device).2
  | .freeDevice index => t.on (t.session.freeDevice index).2
  | .makeStream dir => t.on (t.session.makeStream dir).2
  | .startAttach call dir index handle =>
    match t.underway call, t.session.resolveAttach dir index handle with
    | none, .ok () => t.put call (some (.building dir index handle))
    | _, _ => t
  | .endBuild call built =>
    match t.underway call with
    | some (.building dir index handle) =>
      let result := guardedResult (built dir)
      (t.on (t.session.recordOnDevice index result)).put call (match result with
        | .ok stream => some (.built dir index handle stream)
        | .error _ => none)
    | _ => t
  | .commit call =>
    match t.underway call with
    | some (.built dir index handle stream) =>
      (t.on (t.session.commit dir index handle stream).2).put call none
    | _ => t
  | .unlist call dir handle =>
    match t.underway call, (t.session.unlistStream dir handle).1 with
    | none, .ok () =>
      (t.on (t.session.unlistStream dir handle).2).put call (some (.unlisted dir handle))
    | _, _ => t
  | .release call =>
    match t.underway call with
    | some (.unlisted dir handle) =>
      (t.on (t.session.releaseStream dir handle).2).put call
        (some (.released dir (t.session.releaseStream dir handle).1))
    | _ => t
  | .vacate call =>
    match t.underway call with
    | some (.released dir held) => (t.on (t.session.vacate dir held)).put call none
    | _ => t
  | .deviceCall index f => t.on (t.session.deviceCall index f).2
  | .streamCall dir handle f => t.on (t.session.streamRun dir handle f).2
  | .clear => t.on t.session.clear

def run (phases : List (Phase δ σ)) (t : Traffic δ σ) : Traffic δ σ := phases.foldl step t

theorem run_append (phases phases' : List (Phase δ σ)) (t : Traffic δ σ) :
    run (phases ++ phases') t = run phases' (run phases t) := by
  unfold run
  rw [List.foldl_append]

/-- Nothing is under way. -/
def Quiescent (t : Traffic δ σ) : Prop := ∀ call, t.underway call = none

@[simp] theorem session_put (t : Traffic δ σ) (call : Nat) (u : Option (Underway σ)) :
    (t.put call u).session = t.session := rfl

@[simp] theorem session_on (t : Traffic δ σ) (s : Session δ σ) : (t.on s).session = s := rfl

@[simp] theorem underway_on (t : Traffic δ σ) (s : Session δ σ) (call : Nat) :
    (t.on s).underway call = t.underway call := rfl

@[simp] theorem underway_put_self (t : Traffic δ σ) (call : Nat) (u : Option (Underway σ)) :
    (t.put call u).underway call = u := by
  simp [put]

theorem underway_put_of_ne (t : Traffic δ σ) {call number : Nat} (u : Option (Underway σ))
    (h : number ≠ call) : (t.put call u).underway number = t.underway number := by
  simp [put, h]

/-! ## The phases of one call in a row -/

/-- An attach is its phases, with whatever runs between them as its build. -/
theorem run_attach (t : Traffic δ σ) (call : Nat) (dir : Direction) (index handle : Nat)
    (during : List (Phase δ σ)) (built : (dir : Direction) → Except Fault (σ dir))
    (hstart : t.session.resolveAttach dir index handle = .ok ())
    (hbuild : (run during (t.step (.startAttach call dir index handle))).underway call =
      some (.building dir index handle)) :
    (run (.startAttach call dir index handle :: during ++ [.endBuild call built, .commit call])
        t).session =
      (t.session.attach dir index handle fun _ => (built dir,
        (run during (t.step (.startAttach call dir index handle))).session)).2 := by
  rw [run_append]
  change (run _ (run during (t.step (.startAttach call dir index handle)))).session = _
  generalize run during (t.step (.startAttach call dir index handle)) = t' at hbuild ⊢
  unfold attach
  simp only [hstart, run, List.foldl_cons, List.foldl_nil]
  cases hb : built dir with
  | error f => simp [step, hbuild, hb, guardedResult]
  | ok stream => simp [step, hbuild, hb, guardedResult]

/-- A free is its three phases. -/
theorem run_free (t : Traffic δ σ) {call : Nat} (hcall : t.underway call = none)
    (dir : Direction) (handle : Nat) :
    (run [.unlist call dir handle, .release call, .vacate call] t).session =
      (t.session.freeStream dir handle).2 := by
  unfold freeStream
  simp only [run, List.foldl_cons, List.foldl_nil]
  rcases unlistStream_cases t.session dir handle with ⟨-, h⟩ | ⟨-, h⟩
  · simp [step, hcall, h]
  · simp [step, hcall, h]

end Traffic

end SoftRadio.Session
