import SoftRadio.Geometry
import SoftRadio.Settings.Yaml.Node
import SoftRadio.Word

/-!
The settings of the library: how much is logged, and what simulated radios
there are.  They come from a file that may be absent.  Fields that a file
leaves out keep their defaults, unknown fields are passed over, and a field
that is given twice or with a value of another type makes the whole file
unusable.
-/

namespace SoftRadio

structure SimSettings (α : Type) where
  enabled : Bool
  /-- Radios that a search reports. -/
  devices : Nat
  geometry : Geometry α
  deriving Repr

structure Settings (α : Type) where
  logLevel : String
  sim : SimSettings α
  deriving Repr

/-- Where settings come from. -/
inductive SettingsSource where
  | absent
  | missingFile
  | file (text : String)
  deriving DecidableEq, Repr, Inhabited

namespace Settings

variable {α : Type} [Scalar α]

def standard : Settings α := ⟨"info", true, 2, Geometry.standard⟩

open Yaml (Node)

def asBool? : Node → Option Bool
  | .scalar text true =>
    if ["true", "True", "TRUE"].contains text then some true
    else if ["false", "False", "FALSE"].contains text then some false
    else none
  | _ => none

/-- The number that digits to a base spell. -/
def ofDigits? (base : Nat) (cs : List Char) : Option Nat :=
  if cs.isEmpty then none
  else cs.foldl (fun n c => do
    let n ← n
    let d ← Yaml.hexValue? c
    if d < base then some (base * n + d) else none) (some 0)

/-- A number of 64 bits, in decimal without leading zeros or with a base given in front. -/
def readCount? (text : String) : Option Nat := do
  let cs := match text.toList with
    | '+' :: cs => cs
    | cs => cs
  let n ← match cs with
    | '0' :: 'x' :: rest => ofDigits? 16 rest
    | '0' :: 'o' :: rest => ofDigits? 8 rest
    | '0' :: 'b' :: rest => ofDigits? 2 rest
    | '0' :: _ :: _ => none
    | _ => ofDigits? 10 cs
  if n < Word.limit then some n else none

def asCount? : Node → Option Nat
  | .scalar text true => readCount? text
  | _ => none

/-- A real number; infinity and no number have names that begin with a point. -/
def readReal? (text : String) : Option α :=
  let unsigned := match text.toList with
    | '+' :: cs => String.ofList cs
    | _ => text
  if text.startsWith "+" && (unsigned.startsWith "+" || unsigned.startsWith "-") then none
  else if [".inf", ".Inf", ".INF"].contains unsigned then some Scalar.infinity
  else if ["-.inf", "-.Inf", "-.INF"].contains text then some (-Scalar.infinity)
  else if [".nan", ".NaN", ".NAN"].contains text then some Scalar.nan
  else match Scalar.read? unsigned with
    | some x => if Scalar.isFinite x then some x else none
    | none => none

def asReal? : Node → Option α
  | .scalar text true => readReal? text
  | _ => none

/-- Any scalar is a text. -/
def asText? : Node → Option String
  | .scalar text _ => some text
  | _ => none

/-- The fields of a mapping by name; an empty value has none. -/
def fields? : Node → Option (List (String × Node))
  | .mapping entries => entries.mapM fun (k, v) => do return (← asText? k, v)
  | .scalar "" true => some []
  | _ => none

/-- The value of a field, `fallback` if it is not there; no value if it is
there twice or of another type. -/
def field? {β : Type} (fields : List (String × Node)) (name : String) (read? : Node → Option β)
    (fallback : β) : Option β :=
  match fields.filter (·.1 = name) with
  | [] => some fallback
  | [(_, v)] => read? v
  | _ => none

def simOf? (n : Node) : Option (SimSettings α) := do
  let fields ← fields? n
  let base : Geometry α := Geometry.standard
  return {
    enabled := ← field? fields "enabled" asBool? true
    devices := ← field? fields "num_devices" asCount? 2
    geometry := {
      boards := ← field? fields "num_mboards" asCount? base.boards
      rxChannels := ← field? fields "rx_channels" asCount? base.rxChannels
      txChannels := ← field? fields "tx_channels" asCount? base.txChannels
      clockRate := ← field? fields "master_clock_rate" asReal? base.clockRate
      frameSize := ← field? fields "frame_size" asCount? base.frameSize } }

def levelOf? (n : Node) : Option String := do
  let fields ← fields? n
  field? fields "level" asText? "info"

/-- Read the text of a settings file. -/
def parse? (text : String) : Option (Settings α) := do
  let root ← Node.ofText? text
  let fields ← fields? root
  let standard : Settings α := standard
  return {
    logLevel := ← field? fields "logging" levelOf? standard.logLevel
    sim := ← field? fields "sim" simOf? standard.sim }

/-- Load the settings; a file that is named has to be there and usable. -/
def load : SettingsSource → Except Error (Settings α)
  | .absent => .ok standard
  | .missingFile => .error .unreadableSettings
  | .file text => match parse? text with
    | some s => .ok s
    | none => .error .malformedSettings

end Settings

/-- The settings in force: those that were loaded, or the defaults together
with the reason why loading failed. -/
structure ActiveSettings (α : Type) where
  settings : Settings α
  failure : Option Error

namespace ActiveSettings

variable {α : Type} [Scalar α]

def ofSource (source : SettingsSource) : ActiveSettings α :=
  match Settings.load source with
  | .ok s => ⟨s, none⟩
  | .error e => ⟨Settings.standard, some e⟩

/-- Fails as long as the settings could not be loaded. -/
def status (a : ActiveSettings α) : Except Error Unit :=
  match a.failure with
  | none => .ok ()
  | some e => .error e

end ActiveSettings

end SoftRadio
