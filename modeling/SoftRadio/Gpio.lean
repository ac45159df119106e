import SoftRadio.Fault

/-!
The general-purpose pins of a motherboard.  There is one bank of 32-bit
registers.  A write changes the bits under its mask.  The readback register
cannot be written: inputs float low, so it shows the output bits of the
pins that are driven.
-/

namespace SoftRadio

inductive GpioAttr where
  | ctrl
  | ddr
  | out
  | atr0x
  | atrRx
  | atrTx
  | atrXx
  | readback
  deriving DecidableEq, Repr, Inhabited

namespace GpioAttr

def name : GpioAttr → String
  | ctrl => "CTRL"
  | ddr => "DDR"
  | out => "OUT"
  | atr0x => "ATR_0X"
  | atrRx => "ATR_RX"
  | atrTx => "ATR_TX"
  | atrXx => "ATR_XX"
  | readback => "READBACK"

def all : List GpioAttr := [ctrl, ddr, out, atr0x, atrRx, atrTx, atrXx, readback]

def ofName? (s : String) : Option GpioAttr := all.find? (·.name == s)

end GpioAttr

/-- The registers of the bank. -/
structure Gpio where
  register : GpioAttr → UInt32

namespace Gpio

def bank : String := "FP0"

def initial : Gpio := ⟨fun _ => 0⟩

/-- Find an attribute of a bank. -/
def attr (bankName attrName : String) : Except Fault GpioAttr :=
  if bankName ≠ bank then refuse (.noGpioBank bankName)
  else match GpioAttr.ofName? attrName with
    | some a => .ok a
    | none => refuse (.noGpioAttr attrName)

def read (g : Gpio) (a : GpioAttr) : UInt32 :=
  if a = .readback then g.register .out &&& g.register .ddr else g.register a

/-- Write the bits under the mask. -/
def write (g : Gpio) (a : GpioAttr) (value mask : UInt32) : Except Fault Gpio :=
  if a = .readback then refuse (.readOnlyGpioAttr a.name)
  else
    let new := (g.register a &&& ~~~mask) ||| (value &&& mask)
    .ok ⟨fun b => if b = a then new else g.register b⟩

/-- A write that is taken changes its register under the mask, and no other. -/
theorem register_write {g g' : Gpio} {a : GpioAttr} {value mask : UInt32}
    (h : g.write a value mask = .ok g') (b : GpioAttr) :
    g'.register b =
      if b = a then (g.register a &&& ~~~mask) ||| (value &&& mask) else g.register b := by
  unfold write at h
  by_cases ha : a = .readback
  · rw [if_pos ha] at h
    exact nomatch h
  · rw [if_neg ha] at h
    rw [← Except.ok.inj h]

end Gpio

end SoftRadio
