import SoftRadio.Flat.Output
import SoftRadio.Station
import SoftRadio.Steps

/-!
What the functions of the flat interface work on.  A call has a desk: the
station, what was written to the caller's places so far, and the sample
buffers that came back.  A function is a row of steps on the desk.
-/

namespace SoftRadio.Flat

structure Desk (α : Type) where
  station : Station α
  /-- What was written to the caller's places, in order. -/
  writes : Writes α
  /-- The sample buffers that a receive stream was lent, as it left them. -/
  buffers : List (List UInt8)

namespace Desk

variable {α β : Type}

/-- The desk of a call that has done nothing yet. -/
def start (station : Station α) : Desk α := ⟨station, [], []⟩

/-- Something that is done with the station. -/
def onStation (f : Station α → Except Fault β × Station α) : Steps (Desk α) β := fun desk =>
  let (result, station) := f desk.station
  (result, { desk with station := station })

/-- An error as the fault of the call in which it came up. -/
def raise : Except Error β → Except Fault β
  | .ok v => .ok v
  | .error e => refuse e

/-- A question to the station. -/
def ask (f : Station α → Except Error β) : Steps (Desk α) β :=
  onStation fun st => (raise (f st), st)

/-- A call that goes on to the session of the station. -/
def forward (f : Station α → Except Error β × Station α) : Steps (Desk α) β :=
  onStation fun st =>
    let (result, st) := f st
    (raise result, st)

/-- A call that was lent sample buffers, which come back however it ends. -/
def lend (f : Station α → (Except Error β × List (List UInt8)) × Station α) : Steps (Desk α) β :=
  fun desk =>
    let ((result, buffers), station) := f desk.station
    (raise result, { desk with station := station, buffers := buffers })

/-- Write to a place of the caller. -/
def write (p : Place) (c : Content α) : Steps (Desk α) Unit :=
  modify fun desk => { desk with writes := desk.writes ++ [(p, c)] }

/-- Write to several places, one after the other. -/
def writeAll (w : Writes α) : Steps (Desk α) Unit := forM w fun (p, c) => write p c

end Desk

end SoftRadio.Flat
