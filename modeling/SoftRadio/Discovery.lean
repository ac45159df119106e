import SoftRadio.Address
import SoftRadio.Direction

/-!
Finding and opening radios.  Each driver answers to a name, which is the
value of the key `type` in the addresses it reports.  A search asks the
drivers that the hint does not rule out; one that fails contributes nothing.
A radio is opened by the driver named in the first address found.
-/

namespace SoftRadio

structure Driver (δ : Type) where
  name : String
  find : Address → Except Fault (List Address)
  make : Address → Except Fault δ

namespace Discovery

variable {δ : Type}

/-- Add a driver in place of one of the same name. -/
def register (drivers : List (Driver δ)) (d : Driver δ) : List (Driver δ) :=
  drivers.filter (·.name != d.name) ++ [d]

/-- Whether a hint leaves a driver in question. -/
def admits (hint : Address) (name : String) : Bool :=
  match hint.get? "type" with
  | none => true
  | some t => t == name

/-- Ask the drivers in order.  A refusal is passed over; a crash is not. -/
def search (hint : Address) : List (Driver δ) → Except Fault (List Address)
  | [] => .ok []
  | d :: rest =>
    if admits hint d.name then
      match d.find hint with
      | .ok found => do
        let more ← search hint rest
        return found ++ more
      | .error (.error _) => search hint rest
      | .error (.crash text) => crash text
    else search hint rest

/-- The driver and the address with which a radio would be opened. -/
def choose (drivers : List (Driver δ)) (args : Address) : Except Fault (Driver δ × Address) := do
  match ← search args drivers with
  | [] => refuse (.nothingFound args.listing)
  | first :: _ =>
    let addr := first.merged args
    let type := addr.getD "type" ""
    match drivers.find? (·.name = type) with
    | some d => return (d, addr)
    | none => refuse (.noDriver type)

/-- Open the first radio that answers to the arguments. -/
def open? (drivers : List (Driver δ)) (args : Address) : Except Fault δ := do
  let (d, addr) ← choose drivers args
  d.make addr

end Discovery

end SoftRadio
