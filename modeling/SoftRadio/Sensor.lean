import SoftRadio.Scalar

/-!
Sensor readings: a name, a value of one of four kinds, and a unit.  For a
truth value the unit holds the word for the state that was read.
-/

namespace SoftRadio

inductive Reading (α : Type) where
  | flag (v : Bool)
  | count (v : Int)
  | real (v : α)
  | text (v : String)
  deriving Repr, Inhabited

structure Sensor (α : Type) where
  name : String
  reading : Reading α
  unit : String
  deriving Repr, Inhabited

namespace Sensor

variable {α : Type} [Scalar α]

def ofFlag (name : String) (v : Bool) (whenTrue whenFalse : String) : Sensor α :=
  ⟨name, .flag v, if v then whenTrue else whenFalse⟩

/-- The letter that tells callers the kind of the reading. -/
def tag (s : Sensor α) : Nat :=
  match s.reading with
  | .flag _ => 98
  | .count _ => 105
  | .real _ => 114
  | .text _ => 115

/-- The reading as text. -/
def valueText (s : Sensor α) : String :=
  match s.reading with
  | .flag v => if v then "true" else "false"
  | .count v => toString v
  | .real v => Scalar.text v
  | .text v => v

/-- The reading as a number; text that spells none reads as no number. -/
def toReal (s : Sensor α) : α :=
  match s.reading with
  | .flag v => Scalar.ofInt (if v then 1 else 0)
  | .count v => Scalar.ofInt v
  | .real v => v
  | .text v => (Scalar.read? v).getD Scalar.nan

/-- One line for a person to read. -/
def display (s : Sensor α) : String :=
  match s.reading with
  | .flag _ => s!"{s.name}: {s.unit}"
  | _ => s!"{s.name}: {s.valueText} {s.unit}"

end Sensor

end SoftRadio
