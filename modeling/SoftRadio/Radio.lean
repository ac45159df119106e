import SoftRadio.Device.Simulated
import SoftRadio.Discovery
import SoftRadio.Session.Basic
import SoftRadio.Settings.Basic

/-!
The radios that can be opened, and their drivers.  Besides the simulated
radio there are stubs, which follow a script: they have one gain for
everything, lend out the streams and the property tree of a simulated
radio, and support nothing else.
-/

namespace SoftRadio

/-- A radio that follows a script. -/
structure Stub (α : Type) where
  device : Device α
  gain : α
  ranges : Ranges α
  /-- For each direction a handle that is freed while a stream is being built. -/
  frees : Direction → Option Nat
  /-- What the radio crashes with when it is dropped. -/
  lastWords : Option String

inductive Radio (α : Type) where
  | simulated (d : Device α)
  | stub (s : Stub α)

/-- The streams of each direction. -/
def StreamOf (α : Type) : Direction → Type
  | .rx => Receiver α
  | .tx => Sender α

namespace Stub

variable {α : Type} [Scalar α]

def perform (s : Stub α) (looks : Nat → α) : Call α → Except Fault (Answer α × Stub α)
  | .gain .. => .ok (.real s.gain, s)
  | .setGain _ gain .. => .ok (.done, { s with gain := gain })
  | .gainRange .. => .ok (.ranges s.ranges, s)
  | .normalizedGain .. => do
    let share ← NormalizedGain.read (.ok s.ranges) (.ok s.gain)
    return (.real share, s)
  | .setNormalizedGain _ share _ => do
    let gain ← NormalizedGain.target (.ok s.ranges) share
    return (.done, { s with gain := gain })
  | call@(.createProperty ..) | call@(.setProperty ..) | call@(.property ..)
  | call@(.hasProperty _) | call@(.listProperties _) => do
    let (answer, device) ← s.device.perform looks call
    return (answer, { s with device := device })
  | call => refuse (.unsupported call.name)

end Stub

namespace Radio

variable {α : Type} [Scalar α]

/-- The simulated radio itself, or the one behind a stub. -/
def device : Radio α → Device α
  | simulated d => d
  | stub s => s.device

def setDevice (r : Radio α) (d : Device α) : Radio α :=
  match r with
  | simulated _ => simulated d
  | stub s => stub { s with device := d }

/-- Carry out a call. -/
def perform (r : Radio α) (looks : Nat → α) (call : Call α) :
    Except Fault (Answer α × Radio α) :=
  match r with
  | simulated d => do
    let (answer, d) ← d.perform looks call
    return (answer, simulated d)
  | stub s => do
    let (answer, s) ← s.perform looks call
    return (answer, stub s)

/-- The handle that is freed while a stream is being built. -/
def frees (r : Radio α) (dir : Direction) : Option Nat :=
  match r with
  | simulated _ => none
  | stub s => s.frees dir

/-- What the radio crashes with when it is dropped. -/
def lastWords : Radio α → Option String
  | simulated _ => none
  | stub s => s.lastWords

/-- Open a stream. -/
def openStream (r : Radio α) (args : StreamArgs) : (dir : Direction) → Except Fault (StreamOf α dir)
  | .rx => r.device.openReceiver args
  | .tx => r.device.openSender args

end Radio

/-! ### Drivers -/

/-- A number with four digits at least. -/
def paddedNumber (n : Nat) : String :=
  let digits := Nat.toDigits 10 n
  String.ofList (List.replicate (4 - digits.length) '0' ++ digits)

namespace Simulation

variable {α : Type} [Scalar α]

def driverName : String := "sim"

/-- The address of one of the radios that a search reports. -/
def address (settings : SimSettings α) (i : Nat) : Address :=
  ⟨[("type", driverName), ("serial", "SIM" ++ paddedNumber (i + 1)), ("name", s!"sim{i}"),
    ("product", settings.geometry.product)]⟩

def find (settings : SimSettings α) (hint : Address) : List Address :=
  if settings.enabled then
    ((List.range settings.devices).map (address settings)).filter (·.matchesHint hint)
  else []

def make (settings : SimSettings α) (addr : Address) : Except Fault (Device α) := do
  let geometry ← Geometry.ofAddress settings.geometry addr
  Device.make addr geometry

/-- The driver of simulated radios. -/
def driver (settings : SimSettings α) : Driver (Radio α) where
  name := driverName
  find hint := .ok (find settings hint)
  make addr := Radio.simulated <$> make settings addr

end Simulation

/-- What a scripted driver reports. -/
inductive FindScript where
  | addresses (found : List Address) (filtered : Bool)
  | fails (f : Fault)
  deriving Repr, Inhabited

/-- What a scripted driver opens. -/
inductive MakeScript (α : Type) where
  | fails (f : Fault)
  | simulated
  | stub (gain : α) (ranges : Ranges α) (frees : Direction → Option Nat)
      (lastWords : Option String)

/-- A driver that follows a script. -/
structure Script (α : Type) where
  name : String
  find : FindScript
  make : MakeScript α

namespace Script

variable {α : Type} [Scalar α]

def findWith (script : FindScript) (hint : Address) : Except Fault (List Address) :=
  match script with
  | .fails f => .error f
  | .addresses found filtered =>
    .ok (if filtered then found.filter (·.matchesHint hint) else found)

/-- Radios of a script have the standard size where the address gives no other. -/
def makeWith (script : MakeScript α) (addr : Address) : Except Fault (Radio α) :=
  match script with
  | .fails f => .error f
  | .simulated => do
    let geometry ← Geometry.ofAddress Geometry.standard addr
    Radio.simulated <$> Device.make addr geometry
  | .stub gain ranges frees lastWords => do
    let geometry ← Geometry.ofAddress Geometry.standard addr
    let device ← Device.make addr geometry
    return .stub { device, gain, ranges, frees, lastWords }

def driver (s : Script α) : Driver (Radio α) where
  name := s.name
  find := findWith s.find
  make := makeWith s.make

end Script

end SoftRadio
