import SoftRadio.Address
import SoftRadio.Text.Truncation

/-!
The memories that identify the parts of a radio.  A motherboard's memory is
an `Address`; a daughterboard's is a record, which crosses the flat
interface with its serial in a text field of 64 bytes.
-/

namespace SoftRadio

structure DboardEeprom where
  id : Nat
  serial : String
  revision : Int
  deriving DecidableEq, Repr, Inhabited

/-- Where a motherboard's memory is in the property tree. -/
def mboardEepromPath (mboard : Nat) : String := s!"/mboards/{mboard}/eeprom"

/-- Where a daughterboard's memory is in the property tree. -/
def dboardEepromPath (mboard : Nat) (slot unit : String) : String :=
  s!"/mboards/{mboard}/dboards/{slot}/{unit}_eeprom"

namespace TextField

/-- The size of a text field, its closing zero included. -/
def size : Nat := 64

/-- A field that holds a text, cut if it is too long. -/
def ofText (s : String) : List UInt8 := (Text.fill (List.replicate size 0) s).2

/-- The text of a field. -/
def read (field : List UInt8) : Except Fault String :=
  match Text.ofBytes? (Text.untilZero field) with
  | some s => .ok s
  | none => refuse .textFieldNotUtf8

end TextField

/-- A daughterboard record as callers lay it out. -/
structure DboardRecord where
  id : Nat
  serial : List UInt8
  revision : Int
  deriving DecidableEq, Repr, Inhabited

namespace DboardRecord

def ofEeprom (e : DboardEeprom) : DboardRecord := ⟨e.id, TextField.ofText e.serial, e.revision⟩

def toEeprom (r : DboardRecord) : Except Fault DboardEeprom := do
  let serial ← TextField.read r.serial
  return ⟨r.id, serial, r.revision⟩

end DboardRecord

end SoftRadio
