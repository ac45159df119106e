import SoftRadio.Direction
import SoftRadio.Range
import SoftRadio.Tuning
import SoftRadio.Sensor

/-!
One channel's radio front end and digital mixer.  Sample rates come from
dividing the master clock by whole numbers; a tuning request is split
between the local oscillator, which has a grid of its own, and the mixer;
an overall gain is spread over the gain elements in order, each one filled
before the next.  A refused setting leaves the front end as it was.
-/

namespace SoftRadio

structure GainElement (α : Type) where
  name : String
  range : Range α
  value : α

structure Frontend (α : Type) where
  dir : Direction
  rate : α
  rf : α
  dsp : α
  gains : List (GainElement α)
  antenna : String
  bandwidth : α
  dcOffsetEnabled : Bool
  iqBalanceEnabled : Bool
  agcEnabled : Bool

/-- A list of names as messages show it. -/
def quotedNames (names : List String) : String :=
  "[" ++ ", ".intercalate (names.map fun n => "\"" ++ n ++ "\"") ++ "]"

namespace Frontend

variable {α : Type} [Scalar α]

open Scalar (ofInt ratio)

/-- The least frequency of the local oscillator. -/
def rfMin : α := ofInt 70000000

def rfMax : α := ofInt 6000000000

/-- The grid of the local oscillator. -/
def rfStep : α := ofInt 1000

def bandwidthMin : α := ofInt 200000

def bandwidthMax : α := ofInt 56000000

def initialGains : Direction → List (GainElement α)
  | .rx =>
    [⟨"LNA", ⟨ofInt 0, ofInt 30, ofInt 1⟩, ofInt 0⟩,
      ⟨"PGA", ⟨ofInt 0, ofInt 46, ratio 1 2⟩, ofInt 0⟩]
  | .tx => [⟨"PGA", ⟨ofInt 0, ratio 359 4, ratio 1 4⟩, ofInt 0⟩]

/-- The antenna ports; the first one is in use at first. -/
def antennas : Direction → List String
  | .rx => ["RX2", "TX/RX", "CAL"]
  | .tx => ["TX/RX", "CAL"]

def initialAntenna : Direction → String
  | .rx => "RX2"
  | .tx => "TX/RX"

def initial (dir : Direction) (clockRate : α) : Frontend α where
  dir := dir
  rate := clockRate / ofInt 32
  rf := ofInt 1000000000
  dsp := ofInt 0
  gains := initialGains dir
  antenna := initialAntenna dir
  bandwidth := bandwidthMax
  dcOffsetEnabled := true
  iqBalanceEnabled := true
  agcEnabled := false

/-- The sample rates that dividing the master clock can reach. -/
def rateRange (clockRate : α) : Ranges α :=
  Ranges.single (clockRate / ofInt 512) clockRate (ofInt 0)

/-- Set the reachable rate that is next to the one asked for. -/
def setRate (fe : Frontend α) (rate clockRate : α) : Except Fault (Frontend α) := do
  if !(Scalar.isFinite rate && Scalar.lt (ofInt 0) rate) then
    refuse (.badSampleRate (Scalar.text rate))
  else
    let clipped ← (rateRange clockRate).clip rate false
    let divisor := Scalar.max (Scalar.round (clockRate / clipped)) (ofInt 1)
    return { fe with rate := clockRate / divisor }

def rfRange : Ranges α := Ranges.single rfMin rfMax rfStep

def dspRange (clockRate : α) : Ranges α :=
  Ranges.single (-clockRate / ofInt 2) (clockRate / ofInt 2) (ofInt 0)

/-- The oscillator's range widened by the mixer's. -/
def freqRange (clockRate : α) : Ranges α :=
  Ranges.single (rfMin - clockRate / ofInt 2) (rfMax + clockRate / ofInt 2) (ofInt 0)

/-- The centre frequency. -/
def freq (fe : Frontend α) : α :=
  match fe.dir with
  | .rx => fe.rf - fe.dsp
  | .tx => fe.rf + fe.dsp

/-- What the oscillator is asked for. -/
def targetRf (fe : Frontend α) (request : TuneRequest α) : α :=
  match request.rfPolicy with
  | .auto => request.target
  | .manual => request.rf
  | .keep => fe.rf

/-- Where the oscillator ends up. -/
def actualRf (fe : Frontend α) (request : TuneRequest α) : Except Fault α :=
  if request.rfPolicy = .keep then .ok fe.rf
  else rfRange.clip (fe.targetRf request) true

/-- What the mixer is asked for when the oscillator is at `rf`. -/
def targetDsp (fe : Frontend α) (request : TuneRequest α) (rf : α) : α :=
  match request.dspPolicy with
  | .auto => match fe.dir with
    | .rx => rf - request.target
    | .tx => request.target - rf
  | .manual => request.dsp
  | .keep => fe.dsp

/-- Split a request between the oscillator and the mixer. -/
def tune (fe : Frontend α) (request : TuneRequest α) (clockRate : α) :
    Except Fault (TuneResult α × Frontend α) := do
  if !Scalar.isFinite request.target then
    refuse (.badTargetFrequency (Scalar.text request.target))
  else
    let targetRf := fe.targetRf request
    let clippedRf ← rfRange.clip targetRf false
    let actualRf ← fe.actualRf request
    let targetDsp := fe.targetDsp request actualRf
    let actualDsp ← (dspRange clockRate).clip targetDsp false
    return (⟨clippedRf, targetRf, actualRf, targetDsp, actualDsp⟩,
      { fe with rf := actualRf, dsp := actualDsp })

def gainNames (fe : Frontend α) : List String := fe.gains.map GainElement.name

def element (fe : Frontend α) (name : String) : Except Fault (GainElement α) :=
  match fe.gains.find? (·.name = name) with
  | some g => .ok g
  | none => refuse (.noGainElement fe.dir name)

/-- The overall range: from zero to the sum of the elements' stops, in the
finest of their steps. -/
def overallRange (fe : Frontend α) : Ranges α :=
  Ranges.single (ofInt 0) (Scalar.sum (fe.gains.map (·.range.stop)))
    (Ranges.least Scalar.infinity (fe.gains.map (·.range.step)))

/-- The range of one element, or the overall range for the empty name. -/
def gainRange (fe : Frontend α) (name : String) : Except Fault (Ranges α) :=
  if name = "" then .ok fe.overallRange
  else do
    let g ← fe.element name
    return ⟨[g.range]⟩

def overallGain (fe : Frontend α) : α := Scalar.sum (fe.gains.map GainElement.value)

def gain (fe : Frontend α) (name : String) : Except Fault α :=
  if name = "" then .ok fe.overallGain
  else do
    let g ← fe.element name
    return g.value

/-- Set the element to the value next to the one given. -/
def GainElement.setTo (g : GainElement α) (gain : α) : Except Fault (GainElement α) := do
  let value ← (Ranges.mk [g.range]).clip gain true
  return { g with value := value }

/-- Give each element in turn as much of the gain as it takes. -/
def spread (gain : α) : List (GainElement α) → Except Fault (List (GainElement α))
  | [] => .ok []
  | g :: rest => do
    let g ← GainElement.setTo g (Scalar.min gain g.range.stop)
    let rest ← spread (gain - g.value) rest
    return g :: rest

/-- Change the first element of that name. -/
def replaceElement (g : GainElement α) : List (GainElement α) → List (GainElement α)
  | [] => []
  | h :: rest => if h.name = g.name then g :: rest else h :: replaceElement g rest

/-- Set one element, or for the empty name the overall gain. -/
def setGain (fe : Frontend α) (gain : α) (name : String) : Except Fault (Frontend α) := do
  if !Scalar.isFinite gain then refuse (.badGain (Scalar.text gain))
  else if name = "" then
    let total ← fe.overallRange.clip gain false
    let gains ← spread total fe.gains
    return { fe with gains := gains }
  else
    let g ← fe.element name
    let g ← GainElement.setTo g gain
    return { fe with gains := replaceElement g fe.gains }

def setAntenna (fe : Frontend α) (antenna : String) : Except Fault (Frontend α) :=
  if (antennas fe.dir).contains antenna then .ok { fe with antenna := antenna }
  else refuse (.badAntenna fe.dir antenna (quotedNames (antennas fe.dir)))

def bandwidthRange : Ranges α := Ranges.single bandwidthMin bandwidthMax (ofInt 0)

def setBandwidth (fe : Frontend α) (bandwidth : α) : Except Fault (Frontend α) := do
  if !Scalar.isFinite bandwidth then refuse (.badBandwidth (Scalar.text bandwidth))
  else
    let clipped ← bandwidthRange.clip bandwidth false
    return { fe with bandwidth := clipped }

def sensorNames (fe : Frontend α) : List String :=
  match fe.dir with
  | .rx => ["lo_locked", "rssi"]
  | .tx => ["lo_locked"]

/-- The oscillator is always locked; the signal strength grows by half of the gain. -/
def sensor (fe : Frontend α) (name : String) : Except Fault (Sensor α) :=
  if name = "lo_locked" then .ok (Sensor.ofFlag "lo_locked" true "locked" "unlocked")
  else if name = "rssi" ∧ fe.dir = .rx then
    .ok ⟨"rssi", .real (ofInt (-90) + fe.overallGain * ratio 1 2), "dBm"⟩
  else refuse (.noSensor fe.dir name)

end Frontend

/-! The gain as a share of the overall range, for any device that has one. -/

namespace NormalizedGain

variable {α : Type} [Scalar α]

/-- Where a gain lies in a range, from zero to one; zero if the range is a
point.  The gain is asked for only if it matters. -/
def read (range : Except Fault (Ranges α)) (gain : Except Fault α) : Except Fault α := do
  let range ← range
  let start ← range.start
  let stop ← range.stop
  if Scalar.le stop start then return Scalar.ofInt 0
  else
    let gain ← gain
    Scalar.clamp ((gain - start) / (stop - start)) (Scalar.ofInt 0) (Scalar.ofInt 1)

def isShare (share : α) : Bool :=
  Scalar.le (Scalar.ofInt 0) share && Scalar.le share (Scalar.ofInt 1)

/-- The gain at a share of a range. -/
def target (range : Except Fault (Ranges α)) (share : α) : Except Fault α := do
  if !isShare share then refuse .gainNotNormalized
  else
    let range ← range
    let start ← range.start
    let stop ← range.stop
    return start + share * (stop - start)

end NormalizedGain

end SoftRadio
