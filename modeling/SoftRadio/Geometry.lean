import SoftRadio.Address
import SoftRadio.Scalar

/-!
The size of a simulated radio: how many motherboards and channels it has,
its master clock and its packets.  The settings give the defaults, which
the keys of an address override.
-/

namespace SoftRadio

structure Geometry (α : Type) where
  boards : Nat
  /-- Channels of each motherboard. -/
  rxChannels : Nat
  txChannels : Nat
  clockRate : α
  frameSize : Nat
  deriving Repr, Inhabited

namespace Geometry

variable {α : Type} [Scalar α]

def standard : Geometry α := ⟨1, 2, 2, Scalar.ofInt 32000000, 2000⟩

def channels (g : Geometry α) : Direction → Nat
  | .rx => g.rxChannels
  | .tx => g.txChannels

def validate (g : Geometry α) : Except Fault Unit :=
  if g.boards = 0 ∨ g.rxChannels = 0 ∨ g.txChannels = 0 then refuse .emptyGeometry
  else if 26 < g.rxChannels ∨ 26 < g.txChannels then refuse .tooManyChannels
  else if !(Scalar.isFinite g.clockRate && Scalar.lt (Scalar.ofInt 0) g.clockRate) then
    refuse (.badClockRate (Scalar.text g.clockRate))
  else if g.frameSize = 0 then refuse .emptyFrames
  else .ok ()

/-- The defaults with the keys of an address in place of theirs. -/
def ofAddress (defaults : Geometry α) (addr : Address) : Except Fault (Geometry α) := do
  let boards ← addr.nat? "num_mboards"
  let rxChannels ← addr.nat? "rx_channels"
  let txChannels ← addr.nat? "tx_channels"
  let clockRate ← addr.number? Scalar.read? "master_clock_rate"
  let frameSize ← addr.nat? "frame_size"
  let g : Geometry α := {
    boards := boards.getD defaults.boards
    rxChannels := rxChannels.getD defaults.rxChannels
    txChannels := txChannels.getD defaults.txChannels
    clockRate := clockRate.getD defaults.clockRate
    frameSize := frameSize.getD defaults.frameSize }
  g.validate
  return g

/-- The name it is sold under. -/
def product (g : Geometry α) : String := s!"SIM-{g.rxChannels}x{g.txChannels}"

end Geometry

end SoftRadio
