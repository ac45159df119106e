import SoftRadio.Stream.Command

/-!
How commands reach receive streams.  Every receive channel has a mailbox
with the latest command issued on it.  Commands are numbered in the order
of their issue across all mailboxes, and a stream remembers which numbers
it has seen.
-/

namespace SoftRadio

/-- The latest command of one channel.  Number zero means that there was none. -/
structure Mailbox (α : Type) where
  command : Option (StreamCommand α)
  late : Bool
  number : Nat
  deriving Repr

namespace Mailbox

variable {α : Type} [Scalar α]

def empty : Mailbox α := ⟨none, false, 0⟩

/-- A timed start is late if its time has passed when it is issued. -/
def isLate (command : StreamCommand α) (now : TimeSpec α) : Bool :=
  !command.immediate && command.mode ≠ .stopContinuous && command.time.isBefore now

def holding (command : StreamCommand α) (now : TimeSpec α) (number : Nat) : Mailbox α :=
  ⟨some command, isLate command now, number⟩

end Mailbox

/-- The mailboxes of a device and the number of the next command. -/
structure PostOffice (α : Type) where
  boxes : List (Mailbox α)
  next : Nat
  deriving Repr

namespace PostOffice

variable {α : Type} [Scalar α]

def make (channels : Nat) : PostOffice α := ⟨List.replicate channels Mailbox.empty, 1⟩

def box (p : PostOffice α) (channel : Nat) : Mailbox α := (p.boxes[channel]?).getD Mailbox.empty

/-- Issue a command on one channel. -/
def issue (p : PostOffice α) (command : StreamCommand α) (now : TimeSpec α) (channel : Nat) :
    PostOffice α :=
  ⟨p.boxes.set channel (Mailbox.holding command now p.next), p.next + 1⟩

/-- A command is in the mailbox of its channel, and the others keep what they have. -/
theorem box_issue (p : PostOffice α) (command : StreamCommand α) (now : TimeSpec α)
    {channel : Nat} (h : channel < p.boxes.length) (other : Nat) :
    (p.issue command now channel).box other =
      if other = channel then Mailbox.holding command now p.next else p.box other := by
  unfold box issue
  rw [List.getElem?_set]
  by_cases ho : other = channel
  · subst ho
    simp [h]
  · rw [if_neg (Ne.symm ho), if_neg ho]

/-- Issue a command on several channels, one after another. -/
def issueAll (p : PostOffice α) (command : StreamCommand α) (now : TimeSpec α)
    (channels : List Nat) : PostOffice α :=
  channels.foldl (fun p c => p.issue command now c) p

/-- The numbers that the mailboxes of some channels hold. -/
def numbers (p : PostOffice α) (channels : List Nat) : List Nat :=
  channels.map fun c => (p.box c).number

end PostOffice

/-- Among the mailboxes that hold something not yet seen, the command with
the greatest number so far. -/
def newestUnseen {α : Type} :
    List (Mailbox α) → List Nat → Option (Mailbox α) → Option (Mailbox α)
  | box :: boxes, seen :: rest, best =>
    if box.number = seen ∨ box.command.isNone then newestUnseen boxes rest best
    else match best with
      | none => newestUnseen boxes rest (some box)
      | some b => newestUnseen boxes rest (some (if b.number < box.number then box else b))
  | _, _, best => best

end SoftRadio
