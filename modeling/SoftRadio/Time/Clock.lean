import SoftRadio.Time.Spec

/-!
The time base of a motherboard.  Device time is the time elapsed since the
device was opened plus an offset; what every operation needs of the
elapsed time is one reading, given as an argument.  Pulses come at whole
seconds of elapsed time.
-/

namespace SoftRadio

structure Clock (α : Type) where
  offset : α
  deriving Repr

namespace Clock

variable {α : Type} [Scalar α]

def start : Clock α := ⟨Scalar.ofInt 0⟩

/-- The device time when `elapsed` seconds have passed. -/
def now (c : Clock α) (elapsed : α) : Except Fault (TimeSpec α) :=
  TimeSpec.ofSecs (elapsed + c.offset)

/-- The device time of the latest pulse. -/
def lastPulse (c : Clock α) (elapsed : α) : Except Fault (TimeSpec α) :=
  TimeSpec.ofSecs (Scalar.floor elapsed + c.offset)

/-- The clock that reads `time` when `elapsed` seconds have passed. -/
def setNow (elapsed : α) (time : TimeSpec α) : Clock α := ⟨time.toSecs - elapsed⟩

/-- The clock that reads `time` at the pulse after `elapsed` seconds. -/
def setNextPulse (elapsed : α) (time : TimeSpec α) : Clock α :=
  ⟨time.toSecs - (Scalar.floor elapsed + Scalar.ofInt 1)⟩

end Clock

end SoftRadio
