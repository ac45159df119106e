import SoftRadio.Scalar

/-!
Ranges of settings.  A range is a closed interval, with a step or, if the
step is zero, without one; `Ranges` is a list of them.  The main operation
is `Ranges.clip`, which moves a value to the nearest point covered.
-/

namespace SoftRadio

structure Range (α : Type) where
  start : α
  stop : α
  step : α
  deriving Repr, Inhabited

structure Ranges (α : Type) where
  items : List (Range α)
  deriving Repr, Inhabited

namespace Range

variable {α : Type} [Scalar α]

def point (value : α) : Range α := ⟨value, value, Scalar.ofInt 0⟩

/-- The point of the range nearest to a value.  With `snap` it is then moved
to a whole number of steps from the start, but not past the stop. -/
def nearest (r : Range α) (value : α) (snap : Bool) : Except Fault α := do
  let inside ← Scalar.clamp value r.start r.stop
  if snap && Scalar.lt (Scalar.ofInt 0) r.step then
    let steps := Scalar.round ((inside - r.start) / r.step)
    return Scalar.min (r.start + steps * r.step) r.stop
  else return inside

def covers (r : Range α) (value : α) : Bool := Scalar.le r.start value && Scalar.le value r.stop

end Range

namespace Ranges

variable {α : Type} [Scalar α]

def single (start stop step : α) : Ranges α := ⟨[⟨start, stop, step⟩]⟩

def nonempty (r : Ranges α) : Except Fault Unit :=
  if r.items.isEmpty then refuse .noRanges else .ok ()

/-- The least number of a list, or `fallback` if it holds no numbers. -/
def least (fallback : α) (xs : List α) : α :=
  match xs.filter (!Scalar.isNaN ·) with
  | [] => fallback
  | x :: rest => rest.foldl Scalar.min x

/-- The greatest number of a list, or `fallback` if it holds no numbers. -/
def greatest (fallback : α) (xs : List α) : α :=
  match xs.filter (!Scalar.isNaN ·) with
  | [] => fallback
  | x :: rest => rest.foldl Scalar.max x

def start (r : Ranges α) : Except Fault α := do
  r.nonempty
  return least Scalar.infinity (r.items.map Range.start)

def stop (r : Ranges α) : Except Fault α := do
  r.nonempty
  return greatest (-Scalar.infinity) (r.items.map Range.stop)

/-- The least step of the stepped ranges, or zero if none has steps. -/
def step (r : Ranges α) : Except Fault α := do
  r.nonempty
  return match (r.items.map Range.step).filter (Scalar.lt (Scalar.ofInt 0)) with
    | [] => Scalar.ofInt 0
    | x :: rest => rest.foldl Scalar.min x

/-- Go through the ranges and keep the nearest point so far; `far` is its
distance, where one is known. -/
def clipFrom (value : α) (snap : Bool) (best : α) (far : Option α) :
    List (Range α) → Except Fault α
  | [] => .ok best
  | r :: rest => do
    let candidate ← r.nearest value snap
    let distance := Scalar.abs (candidate - value)
    let closer := match far with
      | none => Scalar.isFinite distance
      | some d => Scalar.lt distance d
    if closer then clipFrom value snap candidate (some distance) rest
    else clipFrom value snap best far rest

/-- The covered point nearest to a value, the earlier range winning a tie. -/
def clip (r : Ranges α) (value : α) (snap : Bool) : Except Fault α :=
  match r.items with
  | [] => refuse .noRanges
  | first :: rest => clipFrom value snap first.start none (first :: rest)

def contains (r : Ranges α) (value : α) : Bool := r.items.any (·.covers value)

end Ranges

end SoftRadio
