import SoftRadio.Scalar
import SoftRadio.Time.Checked

/-!
Points in device time: whole seconds and a fraction of a second.
`TimeSpec.make` carries whole seconds out of the fraction, so that two
points are in the order of their pairs.
-/

namespace SoftRadio

structure TimeSpec (α : Type) where
  full : Int
  frac : α
  deriving Repr

namespace TimeSpec

variable {α : Type} [Scalar α]

def zero : TimeSpec α := ⟨0, Scalar.ofInt 0⟩

instance : Inhabited (TimeSpec α) := ⟨zero⟩

/-- The point `full + frac` seconds. -/
def make (full : Int) (frac : α) : Except Fault (TimeSpec α) := do
  let carry := Scalar.floor frac
  let full ← Checked.add full (Scalar.toInt carry)
  return ⟨full, frac - carry⟩

def ofSecs (secs : α) : Except Fault (TimeSpec α) := make 0 secs

/-- The point as one number of seconds. -/
def toSecs (t : TimeSpec α) : α := Scalar.ofInt t.full + t.frac

/-- The point some seconds later. -/
def addSecs (t : TimeSpec α) (secs : α) : Except Fault (TimeSpec α) := make t.full (t.frac + secs)

/-- The seconds that pass before `later`, negative if it has passed. -/
def secsUntil (t later : TimeSpec α) : Except Fault α := do
  let full ← Checked.sub later.full t.full
  return Scalar.ofInt full + (later.frac - t.frac)

/-- The number of ticks of a clock that runs at `rate`. -/
def toTicks (t : TimeSpec α) (rate : α) : Except Fault Int := do
  let full ← Checked.mul t.full (Scalar.toInt (Scalar.round rate))
  Checked.add full (Scalar.toInt (Scalar.round (t.frac * rate)))

/-- The order of two points, if their fractions have one. -/
def compare? (a b : TimeSpec α) : Option Ordering :=
  if a.full < b.full then some .lt
  else if b.full < a.full then some .gt
  else if Scalar.lt a.frac b.frac then some .lt
  else if Scalar.lt b.frac a.frac then some .gt
  else if Scalar.eq a.frac b.frac then some .eq
  else none

/-- Strictly before. -/
def isBefore (a b : TimeSpec α) : Bool := a.compare? b == some .lt

/-- Before or at the same time. -/
def isAtMost (a b : TimeSpec α) : Bool :=
  match a.compare? b with
  | some .lt => true
  | some .eq => true
  | _ => false

def isSame (a b : TimeSpec α) : Bool := a.full == b.full && Scalar.eq a.frac b.frac

end TimeSpec

end SoftRadio
