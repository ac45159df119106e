import SoftRadio.Stream.Args
import SoftRadio.Binary64

/-!
The signal that a simulated receiver hears: on each buffer a complex tone
of its own, one turn in 64 samples on the first, two on the second, and so
on.  A sample depends on its format, its buffer and its number only.
-/

namespace SoftRadio.Tone

def amplitude : Float := 0.5

/-- The full turn, as the double nearest to it. -/
def turn : Float := Float.ofBits 0x401921fb54442d18

def period : Float := 64.0

/-- The phase of a sample. -/
def phase (buffer sample : Nat) : Float :=
  turn * (Float.ofNat (buffer + 1) / period) * Float.ofNat sample

def leBytes (n size : Nat) : List UInt8 :=
  (List.range size).map fun i => UInt8.ofNat (n >>> (8 * i))

/-- A number in two's complement on `size` bytes. -/
def signedBytes (n : Int) (size : Nat) : List UInt8 :=
  let modulus : Nat := 1 <<< (8 * size)
  leBytes (n % modulus).toNat size

/-- One half of a sample, laid out for memory.  Whole-number formats scale
to their greatest value and drop the fraction. -/
def component (format : SampleFormat) (x : Float) : List UInt8 :=
  match format with
  | .fc64 => leBytes x.toBits.toNat 8
  | .fc32 => leBytes x.toFloat32.toBits.toNat 4
  | .sc16 => signedBytes (Binary64.toWord (x * 32767.0)) 2
  | .sc8 => signedBytes (Binary64.toWord (x * 127.0)) 1

/-- The bytes of one sample. -/
def sample (format : SampleFormat) (buffer n : Nat) : List UInt8 :=
  let p := phase buffer n
  component format (amplitude * p.cos) ++ component format (amplitude * p.sin)

/-- The bytes of `count` samples, the first of them number `start`. -/
def samples (format : SampleFormat) (buffer start count : Nat) : List UInt8 :=
  (List.range count).flatMap fun i => sample format buffer (start + i)

theorem length_leBytes (n size : Nat) : (leBytes n size).length = size := by
  simp [leBytes]

theorem length_sample (format : SampleFormat) (buffer n : Nat) :
    (sample format buffer n).length = format.itemSize := by
  cases format <;> simp [sample, component, signedBytes, length_leBytes, SampleFormat.itemSize]

theorem samples_zero (format : SampleFormat) (buffer start : Nat) :
    samples format buffer start 0 = [] := rfl

theorem samples_one (format : SampleFormat) (buffer start : Nat) :
    samples format buffer start 1 = sample format buffer start := by
  simp [samples]

/-- Samples in two pieces. -/
theorem samples_add (format : SampleFormat) (buffer start m n : Nat) :
    samples format buffer start (m + n) =
      samples format buffer start m ++ samples format buffer (start + m) n := by
  unfold samples
  rw [List.range_add, List.flatMap_append, List.flatMap_map]
  simp only [Nat.add_assoc]

theorem length_samples (format : SampleFormat) (buffer start count : Nat) :
    (samples format buffer start count).length = count * format.itemSize := by
  induction count with
  | zero => simp [samples]
  | succ n ih =>
    rw [samples_add, List.length_append, ih, samples_one, length_sample, Nat.succ_mul]

/-- Each sample is in its place. -/
theorem sample_of_samples (format : SampleFormat) (buffer start : Nat) {m count : Nat}
    (h : m < count) :
    ((samples format buffer start count).drop (m * format.itemSize)).take format.itemSize =
      sample format buffer (start + m) := by
  obtain ⟨rest, rfl⟩ : ∃ rest, count = m + (1 + rest) := ⟨count - m - 1, by omega⟩
  rw [samples_add, samples_add, List.drop_left' (length_samples ..), samples_one,
    List.take_left' (length_sample ..)]

end SoftRadio.Tone
