/-!
The two halves of a radio.  Almost every operation exists once for
receiving and once for transmitting, so the half is an argument, and
`Sides` keeps one value for each.
-/

namespace SoftRadio

/-- Which way samples travel. -/
inductive Direction where
  | rx
  | tx
  deriving DecidableEq, Repr, Inhabited

namespace Direction

/-- The lower-case name used in messages and in paths. -/
def name : Direction → String
  | .rx => "rx"
  | .tx => "tx"

/-- The upper-case name used in printed summaries. -/
def label : Direction → String
  | .rx => "RX"
  | .tx => "TX"

end Direction

/-- One value for each direction; the type may depend on the direction. -/
structure Sides (β : Direction → Type) where
  rx : β .rx
  tx : β .tx

namespace Sides

variable {β : Direction → Type}

def get (s : Sides β) : (dir : Direction) → β dir
  | .rx => s.rx
  | .tx => s.tx

def set (s : Sides β) : (dir : Direction) → β dir → Sides β
  | .rx, v => { s with rx := v }
  | .tx, v => { s with tx := v }

@[simp] theorem get_set_self (s : Sides β) (dir : Direction) (v : β dir) :
    (s.set dir v).get dir = v := by
  cases dir <;> rfl

theorem get_set_of_ne (s : Sides β) {dir other : Direction} (v : β dir) (h : other ≠ dir) :
    (s.set dir v).get other = s.get other := by
  cases dir <;> cases other
  · exact absurd rfl h
  · rfl
  · rfl
  · exact absurd rfl h

@[simp] theorem set_get_self (s : Sides β) (dir : Direction) : s.set dir (s.get dir) = s := by
  cases dir <;> rfl

end Sides

end SoftRadio
