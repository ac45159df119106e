import SoftRadio.Address
import SoftRadio.Scalar

/-!
Requests to tune a channel, and what came of them.  The tuning chain has
two stages, the radio front end and the digital mixer, and a request says
for each of them how its frequency is found.
-/

namespace SoftRadio

/-- How one stage of the tuning chain is set. -/
inductive TunePolicy where
  /-- Leave the stage where it is. -/
  | keep
  /-- Work the frequency out from the target. -/
  | auto
  /-- Use the frequency of the request. -/
  | manual
  deriving DecidableEq, Repr, Inhabited

namespace TunePolicy

/-- The number that callers use: the code of a letter. -/
def raw : TunePolicy → Int
  | keep => 78
  | auto => 65
  | manual => 77

def name : TunePolicy → String
  | keep => "None"
  | auto => "Auto"
  | manual => "Manual"

def ofRaw (n : Int) : Except Fault TunePolicy :=
  if n = 78 then .ok keep
  else if n = 65 then .ok auto
  else if n = 77 then .ok manual
  else refuse (.badTunePolicy n)

end TunePolicy

structure TuneRequest (α : Type) where
  target : α
  rfPolicy : TunePolicy
  rf : α
  dspPolicy : TunePolicy
  dsp : α
  args : Address

namespace TuneRequest

variable {α : Type} [Scalar α]

/-- Tune to a frequency and leave the rest to the driver. -/
def simple (target : α) : TuneRequest α :=
  ⟨target, .auto, Scalar.ofInt 0, .auto, Scalar.ofInt 0, Address.empty⟩

/-- Tune the front end some way off the target and let the mixer make up the difference. -/
def withOffset (target offset : α) : TuneRequest α :=
  { simple target with rfPolicy := .manual, rf := target + offset }

end TuneRequest

/-- What each stage was asked for and what it was set to. -/
structure TuneResult (α : Type) where
  clippedRf : α
  targetRf : α
  actualRf : α
  targetDsp : α
  actualDsp : α
  deriving Repr, Inhabited

end SoftRadio
