import SoftRadio.Device.Call
import SoftRadio.Flat.Arguments
import SoftRadio.Text.ListCodec

/-!
What calls of the flat interface write.  A function announces its outputs
as a shape, which says what places there are to check before the call and
to write after it.
-/

namespace SoftRadio.Flat

/-- A sensor reading with its texts in fields of fixed size. -/
structure SensorRecord (α : Type) where
  name : List UInt8
  value : List UInt8
  unit : List UInt8
  tag : Nat
  real : α

/-- The identification of a channel with its texts in fields of fixed size. -/
structure InfoRecord where
  boardId : List UInt8
  boardSerial : List UInt8
  frontendId : List UInt8
  subdevName : List UInt8
  subdevSpec : List UInt8
  frontendSerial : List UInt8
  antenna : List UInt8

/-- What is written to one place. -/
inductive Content (α : Type) where
  /-- A whole buffer. -/
  | bytes (v : List UInt8)
  | count (v : Nat)
  | flag (v : Bool)
  | word (v : UInt32)
  | whole (v : Int)
  | real (v : α)
  /-- The entries that were written, in order. -/
  | ranges (v : List (Range α))
  | sensor (v : SensorRecord α)
  | info (v : InfoRecord)
  | record (v : DboardRecord)
  | tuned (v : TuneResult α)
  | received (v : RxMetadata α)
  | reported (v : AsyncMetadata α)

/-- Writes in order. -/
abbrev Writes (α : Type) : Type := List (Place × Content α)

/-- What is left at a place, if it was written to: the latest write counts. -/
def Writes.at? {α : Type} (w : Writes α) (p : Place) : Option (Content α) :=
  (w.reverse.find? fun (q, _) => q = p).map Prod.snd

/-- The shapes of outputs. -/
inductive Output where
  | nothing
  | value
  | text
  | texts
  | ranges
  | time
  deriving DecidableEq, Repr, Inhabited

variable {α : Type} [Scalar α]

def SensorRecord.ofSensor (s : Sensor α) : SensorRecord α :=
  ⟨TextField.ofText s.name, TextField.ofText s.valueText, TextField.ofText s.unit, s.tag, s.toReal⟩

def InfoRecord.ofInfo (i : ChannelInfo) : InfoRecord where
  boardId := TextField.ofText i.boardId
  boardSerial := TextField.ofText i.boardSerial
  frontendId := TextField.ofText i.frontendId
  subdevName := TextField.ofText i.subdevName
  subdevSpec := TextField.ofText i.subdevSpec
  frontendSerial := TextField.ofText i.frontendSerial
  antenna := TextField.ofText i.antenna

namespace Output

/-- The places of a shape. -/
def places : Output → List Place
  | nothing => []
  | value => [.value]
  | text => [.text]
  | texts => [.text, .count]
  | ranges => [.ranges, .count]
  | time => [.whole, .fraction]

/-- Refuse a text buffer that is missing although it has a size. -/
def checkText (a : Arguments α) : Except Fault Unit :=
  if a.missing.contains .text && a.length != 0 then refuse .missingTextBuffer else .ok ()

/-- Refuse places that cannot be written. -/
def check (o : Output) (a : Arguments α) : Except Fault Unit :=
  match o with
  | nothing => .ok ()
  | value => a.given .value "output pointer"
  | text => checkText a
  | texts => do
    checkText a
    a.given .count "count output"
  | ranges => do
    a.given .count "range count output"
    if a.missing.contains .ranges && a.capacity != 0 then refuse .missingRangeBuffer else .ok ()
  | time => do
    a.given .whole "full_secs output"
    a.given .fraction "frac_secs output"

/-- A text, cut to the size of its buffer.  A buffer of no bytes is not touched. -/
def writeText (a : Arguments α) (s : String) : Writes α :=
  if a.length = 0 then [] else [(.text, .bytes (Text.fill (List.replicate a.length 0) s).2)]

/-- An encoded list and the number of its elements. -/
def writeTexts (a : Arguments α) (items : List String) : Writes α :=
  writeText a (Text.encodeList items) ++ [(.count, .count items.length)]

/-- As many ranges as there is room for, and the number of all of them. -/
def writeRanges (a : Arguments α) (r : Ranges α) : Writes α :=
  [(.ranges, .ranges (r.items.take a.capacity)), (.count, .count r.items.length)]

/-- What the answer of a device puts into the caller's places. -/
def ofAnswer (a : Arguments α) : Answer α → Writes α
  | .done => []
  | .text s => writeText a s
  | .texts items => writeTexts a items
  | .flag v => [(.value, .flag v)]
  | .count v => [(.value, .count v)]
  | .word v => [(.value, .word v)]
  | .real v => [(.value, .real v)]
  | .ranges r => writeRanges a r
  | .time t => [(.whole, .whole t.full), (.fraction, .real t.frac)]
  | .sensor s => [(.value, .sensor (SensorRecord.ofSensor s))]
  | .info i => [(.value, .info (InfoRecord.ofInfo i))]
  | .tuned r => [(.value, .tuned r)]
  | .property (.address m) => writeText a m.render
  | .property (.dboard e) => [(.value, .record (DboardRecord.ofEeprom e))]
  | .property _ => []

end Output

end SoftRadio.Flat
