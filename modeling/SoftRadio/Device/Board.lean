import SoftRadio.Direction
import SoftRadio.Gpio
import SoftRadio.Sensor
import SoftRadio.Subdev
import SoftRadio.Time.Clock

/-!
One motherboard of a simulated radio: its clock, its sources, its registers
and pins, and which daughterboard slots its channels use.
-/

namespace SoftRadio

structure Board (α : Type) where
  clock : Clock α
  clockRate : α
  timeSource : String
  clockSource : String
  clockSourceOut : Bool
  commandTime : Option (TimeSpec α)
  /-- The last word written to each user register. -/
  registers : Nat → Option UInt32
  gpio : Gpio
  rxSpec : SubdevSpec
  txSpec : SubdevSpec

namespace Slot

/-- The letter of a daughterboard slot.  Letters are bytes from `A` on, and
there is none past the last byte. -/
def name (slot : Nat) : Except Fault String :=
  let code := 65 + slot % 256
  if code < 256 then .ok (String.singleton (Char.ofNat code))
  else crash "attempt to add with overflow"

/-- The first so many slots are not all named. -/
def limit : Nat := 192

/-- The names of the first slots. -/
def names (count : Nat) : Except Fault (List String) := (List.range count).mapM name

/-- The slot that a capital letter names. -/
def ofName? (s : String) : Option Nat :=
  match s.toList with
  | [c] => if 'A' ≤ c && c ≤ 'Z' then some (c.toNat - 65) else none
  | _ => none

end Slot

namespace Board

variable {α : Type} [Scalar α]

/-- What time and clock can be taken from; the first is in use at first. -/
def sources : List String := ["internal", "external", "gpsdo"]

def initialSource : String := "internal"

/-- The specification with one channel on each slot in order. -/
def initialSpec (channels : Nat) : Except Fault SubdevSpec := do
  let names ← Slot.names channels
  return ⟨names.map fun n => ⟨n, "0"⟩⟩

def initial (clockRate : α) (rxSpec txSpec : SubdevSpec) : Board α where
  clock := Clock.start
  clockRate := clockRate
  timeSource := initialSource
  clockSource := initialSource
  clockSourceOut := false
  commandTime := none
  registers := fun _ => none
  gpio := Gpio.initial
  rxSpec := rxSpec
  txSpec := txSpec

def spec (b : Board α) : Direction → SubdevSpec
  | .rx => b.rxSpec
  | .tx => b.txSpec

def setSpec (b : Board α) (dir : Direction) (spec : SubdevSpec) : Board α :=
  match dir with
  | .rx => { b with rxSpec := spec }
  | .tx => { b with txSpec := spec }

def sensorNames : List String := ["ref_locked", "temp"]

/-- A reading of the board.  No outside reference is ever connected. -/
def sensor (b : Board α) (name : String) : Except Fault (Sensor α) :=
  if name = "ref_locked" then
    .ok (Sensor.ofFlag name (b.clockSource != "external") "locked" "unlocked")
  else if name = "temp" then .ok ⟨name, .real (Scalar.ofInt 42), "C"⟩
  else refuse (.noBoardSensor name)

end Board

end SoftRadio
