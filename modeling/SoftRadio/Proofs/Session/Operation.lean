import SoftRadio.Session.Basic

/-!
# Runs of a session

A run is a list of operations in the order they are called.  The build of an attach may use the
session itself, so that an attach carries the operations that its build calls.  A run keeps a log
of what has happened, told by what the operations have returned.
-/

namespace SoftRadio.Session

/-- An operation of a session, with what is outside the session: the device that was opened, the
stream that was built, or what a call does. -/
inductive Op (δ : Type) (σ : Direction → Type) : Type 1 where
  | makeDevice (opened : Except Fault δ)
  | freeDevice (index : Nat)
  | makeStream (dir : Direction)
  | freeStream (dir : Direction) (handle : Nat)
  | attach (dir : Direction) (index handle : Nat) (during : List (Op δ σ))
      (built : Session δ σ → Except Fault (σ dir))
  | deviceCall {β : Type} (index : Nat) (f : δ → Except Fault β × δ)
  | streamCall {β ω : Type} (dir : Direction) (handle : Nat)
      (f : δ → σ dir → (Except Fault β × ω) × δ × σ dir)
  | clear

/-- What has happened in a run. -/
inductive Event (δ : Type) (σ : Direction → Type) where
  | deviceMade (index : Nat) (device : δ)
  | deviceFreed (index : Nat)
  | streamMade (dir : Direction) (handle : Nat)
  | streamFreed (dir : Direction) (handle : Nat)
  | attached (dir : Direction) (index handle : Nat) (stream : σ dir)
  | deviceCalled (index : Nat) (change : δ → δ)
  | streamCalled (dir : Direction) (handle : Nat) (change : δ → σ dir → δ × σ dir)
  | cleared

variable {δ : Type} {σ : Direction → Type}

/-- An attach has happened if a stream was built and a place was returned. -/
def attachedEvents (dir : Direction) (index handle : Nat) :
    Except Fault (σ dir) → Except Error Nat → List (Event δ σ)
  | .ok stream, .ok _ => [.attached dir index handle stream]
  | _, _ => []

mutual

/-- Run one operation; also what has happened. -/
def Op.run : Op δ σ → Session δ σ → List (Event δ σ) × Session δ σ
  | .makeDevice (.ok device), s =>
    ([.deviceMade (s.addDevice device).1 device], (s.addDevice device).2)
  | .makeDevice (.error _), s => ([], s)
  | .freeDevice index, s => ([.deviceFreed index], (s.freeDevice index).2)
  | .makeStream dir, s => ([.streamMade dir (s.makeStream dir).1], (s.makeStream dir).2)
  | .freeStream dir handle, s => ([.streamFreed dir handle], (s.freeStream dir handle).2)
  | .attach dir index handle during built, s =>
    let inner := runAll during s
    let outer := s.attach dir index handle fun _ => (built inner.2, inner.2)
    match s.resolveAttach dir index handle with
    | .error _ => ([], outer.2)
    | .ok () => (inner.1 ++ attachedEvents dir index handle (built inner.2) outer.1, outer.2)
  | .deviceCall index f, s =>
    ([.deviceCalled index fun device => (f device).2], (s.deviceCall index f).2)
  | .streamCall dir handle f, s =>
    ([.streamCalled dir handle fun device stream => (f device stream).2],
      (s.streamRun dir handle f).2)
  | .clear, s => ([.cleared], s.clear)

/-- Run operations one after the other. -/
def runAll : List (Op δ σ) → Session δ σ → List (Event δ σ) × Session δ σ
  | [], s => ([], s)
  | op :: ops, s =>
    let first := op.run s
    let rest := runAll ops first.2
    (first.1 ++ rest.1, rest.2)

end

theorem runAll_cons (op : Op δ σ) (ops : List (Op δ σ)) (s : Session δ σ) :
    runAll (op :: ops) s =
      ((op.run s).1 ++ (runAll ops (op.run s).2).1, (runAll ops (op.run s).2).2) := rfl

theorem runAll_append (ops ops' : List (Op δ σ)) (s : Session δ σ) :
    runAll (ops ++ ops') s =
      ((runAll ops s).1 ++ (runAll ops' (runAll ops s).2).1,
        (runAll ops' (runAll ops s).2).2) := by
  induction ops generalizing s with
  | nil => rfl
  | cons op ops ih =>
    rw [List.cons_append, runAll_cons, runAll_cons, ih, List.append_assoc]

end SoftRadio.Session
