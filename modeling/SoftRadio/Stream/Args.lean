import SoftRadio.Address
import SoftRadio.Word

/-!
What a caller asks for when a stream is opened: how samples are laid out
in memory and on the link, which channels it has, and further arguments.
-/

namespace SoftRadio

/-- The layouts of a complex sample. -/
inductive SampleFormat where
  | fc64
  | fc32
  | sc16
  | sc8
  deriving DecidableEq, Repr, Inhabited

namespace SampleFormat

/-- Bytes of one complex sample. -/
def itemSize : SampleFormat → Nat
  | fc64 => 16
  | fc32 => 8
  | sc16 => 4
  | sc8 => 2

def name : SampleFormat → String
  | fc64 => "fc64"
  | fc32 => "fc32"
  | sc16 => "sc16"
  | sc8 => "sc8"

/-- Whether a link can carry it. -/
def isWire : SampleFormat → Bool
  | sc16 => true
  | sc8 => true
  | _ => false

def all : List SampleFormat := [fc64, fc32, sc16, sc8]

def parse (s : String) : Except Fault SampleFormat :=
  match all.find? (·.name == s) with
  | some f => .ok f
  | none => refuse (.badSampleFormat s)

end SampleFormat

structure StreamArgs where
  /-- The layout in memory. -/
  cpu : String
  /-- The layout on the link. -/
  wire : String
  args : Address
  channels : List Nat
  deriving Repr, Inhabited

namespace StreamArgs

/-- Read both layouts; the link's must be one that a link can carry. -/
def formats (a : StreamArgs) : Except Fault (SampleFormat × SampleFormat) := do
  let cpu ← SampleFormat.parse a.cpu
  let wire ← SampleFormat.parse a.wire
  if wire.isWire then return (cpu, wire) else refuse (.notWireFormat wire.name)

/-- The channels, the first one if none is named. -/
def channelList (a : StreamArgs) : List Nat := if a.channels.isEmpty then [0] else a.channels

end StreamArgs

/-- Check that there is a buffer for each channel and that each holds
`count` samples of `itemSize` bytes.  Sizes are 64-bit numbers, and one
that does not fit counts as the greatest. -/
def checkBuffers (buffers channels : Nat) (sizes : List Nat) (count itemSize : Nat) :
    Except Fault Unit :=
  if buffers ≠ channels then refuse (.bufferCount channels buffers)
  else
    let needed := min (count * itemSize) (Word.limit - 1)
    match sizes.zipIdx.find? fun (size, _) => size < needed with
    | some (size, i) => refuse (.bufferTooShort i size needed)
    | none => .ok ()

/-- Buffers that pass the check are as many as the channels. -/
theorem length_of_checkBuffers {buffers channels count itemSize : Nat} {sizes : List Nat}
    (h : checkBuffers buffers channels sizes count itemSize = .ok ()) : buffers = channels := by
  unfold checkBuffers at h
  split at h
  · cases h
  · rename_i hne
    exact Decidable.not_not.1 hne

/-- And they are long enough. -/
theorem le_of_checkBuffers {buffers channels count itemSize : Nat} {sizes : List Nat}
    (h : checkBuffers buffers channels sizes count itemSize = .ok ()) :
    ∀ size ∈ sizes, min (count * itemSize) (Word.limit - 1) ≤ size := by
  intro size hsize
  unfold checkBuffers at h
  split at h
  · cases h
  · dsimp only at h
    split at h
    · cases h
    · rename_i hnone
      obtain ⟨i, hi, rfl⟩ := List.mem_iff_getElem.1 hsize
      have hmem : (sizes[i], i) ∈ sizes.zipIdx := by
        simp [List.mem_zipIdx_iff_getElem?, hi]
      have hlong := List.find?_eq_none.1 hnone _ hmem
      rw [decide_eq_true_eq] at hlong
      exact Nat.le_of_not_lt hlong

end SoftRadio
