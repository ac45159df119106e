import SoftRadio.Proofs.Stream.Chunking
import SoftRadio.Proofs.Stream.Looks
import SoftRadio.Proofs.Outcome

/-!
# Where the samples go

A delivery puts its samples into every buffer one after the other.  For each of them it computes
where it begins and where it ends, and writes between; then it takes what it has delivered off what
remains of a burst.  Each of these steps can end in a crash: an offset is a word, and a product of
two words need not be one; a place need not lie in its buffer; and of a burst there may be too
little left.  `Receiver.deliverChecked` and `Attempt.onChecked` are written step by step, with all
these crashes in them.  None of them happens in a transfer whose buffers have passed the check, in
any state of the stream, although the check computes the room it asks for in a way that stops at
the greatest word.

* `checkBuffers_eq_ok_iff`: what the check asks for.
* `Receiver.putSamples_eq_ok_iff`, `Receiver.fillChecked_eq_ok_iff`: for how many samples there are
  places in one buffer and in all of them, and what is there afterwards.
* `Receiver.deliverChecked_eq_ok_iff`: a delivery gets through if and only if the buffers have room
  for its own samples.
* `Attempt.InBounds`: the transfer stays inside its buffers and inside the burst.
* `Attempt.check_exact_and_inBounds`: the check accepts exactly the buffers with room for all that
  is asked for, and then the transfer stays in bounds.
-/

namespace SoftRadio

variable {σ α : Type}

/-! ## Sizes and places -/

/-- A size or an offset that comes out of an operation, if it fits into a word. -/
def Checked.size (operation : String) (n : Nat) : Except Fault Nat :=
  if n < Word.limit then .ok n else crash s!"attempt to {operation} with overflow"

/-- The difference of two sizes. -/
def Checked.subSize (a b : Nat) : Except Fault Nat :=
  if b ≤ a then .ok (a - b) else crash "attempt to subtract with overflow"

/-- Write bytes into a buffer, in the place of those from `lo` to `hi`. -/
def overwrite (buffer : List UInt8) (lo hi : Nat) (bytes : List UInt8) :
    Except Fault (List UInt8) :=
  if hi < lo then crash s!"slice index starts at {lo} but ends at {hi}"
  else if buffer.length < hi then
    crash s!"range end index {hi} out of range for slice of length {buffer.length}"
  else .ok (buffer.take lo ++ bytes ++ buffer.drop hi)

theorem Checked.size_eq_ok_iff {operation : String} {n m : Nat} :
    size operation n = .ok m ↔ n < Word.limit ∧ n = m := by
  unfold size
  split <;> simp_all [crash]

theorem Checked.subSize_eq_ok_iff {a b c : Nat} : subSize a b = .ok c ↔ b ≤ a ∧ a - b = c := by
  unfold subSize
  split <;> simp_all [crash]

theorem overwrite_eq_ok_iff {buffer bytes written : List UInt8} {lo hi : Nat} :
    overwrite buffer lo hi bytes = .ok written ↔
      lo ≤ hi ∧ hi ≤ buffer.length ∧ buffer.take lo ++ bytes ++ buffer.drop hi = written := by
  unfold overwrite
  by_cases horder : hi < lo
  · simp [horder, crash, Nat.not_le.2 horder]
  · by_cases hinside : buffer.length < hi
    · simp [horder, hinside, crash, Nat.not_le.2 hinside]
    · simp [horder, hinside, Nat.le_of_not_lt horder, Nat.le_of_not_lt hinside]

/-! ## The check -/

theorem checkBuffers_eq_ok_iff {buffers channels count itemSize : Nat} {sizes : List Nat} :
    checkBuffers buffers channels sizes count itemSize = .ok () ↔
      buffers = channels ∧ ∀ size ∈ sizes, min (count * itemSize) (Word.limit - 1) ≤ size := by
  constructor
  · intro h
    exact ⟨length_of_checkBuffers h, le_of_checkBuffers h⟩
  · rintro ⟨hbuffers, hlong⟩
    unfold checkBuffers
    rw [if_neg (by omega)]
    dsimp only
    split
    · rename_i size i hfound
      have hsize := hlong size (List.fst_mem_of_mem_zipIdx (List.mem_of_find?_eq_some hfound))
      have hshort := List.find?_some hfound
      rw [decide_eq_true_eq] at hshort
      omega
    · rfl

/-- A buffer of the greatest size that a word can tell would pass whatever is asked for. -/
example : checkBuffers 1 1 [Word.limit - 1] (Word.limit - 1) 8 = .ok () := by decide

/-! ## Writing samples -/

theorem SampleFormat.itemSize_pos (format : SampleFormat) : 0 < format.itemSize := by
  cases format <;> decide

/-- One more sample goes right behind those before it, over what was there. -/
theorem Tone.samples_overwrites (format : SampleFormat) (i start n : Nat) (buffer : List UInt8) :
    let written := samples format i start n ++ buffer.drop (n * format.itemSize)
    written.take (n * format.itemSize) ++ sample format i (start + n) ++
        written.drop ((n + 1) * format.itemSize) =
      samples format i start (n + 1) ++ buffer.drop ((n + 1) * format.itemSize) := by
  intro written
  have hlength : (samples format i start n).length = n * format.itemSize := length_samples ..
  have htake : written.take (n * format.itemSize) = samples format i start n :=
    List.take_left' hlength
  have hdrop : written.drop ((n + 1) * format.itemSize) =
      buffer.drop ((n + 1) * format.itemSize) := by
    rw [Nat.succ_mul, ← List.drop_drop, List.drop_left' hlength, List.drop_drop]
  rw [htake, hdrop, samples_add, samples_one]

namespace Receiver

/-- Put sample `n` of a delivery into its place.  Samples are numbered without bound. -/
def putSample (r : Receiver α) (i : Nat) (buffer : List UInt8) (n : Nat) :
    Except Fault (List UInt8) := do
  let lo ← Checked.size "multiply" (n * r.itemSize)
  let next ← Checked.size "add" (n + 1)
  let hi ← Checked.size "multiply" (next * r.itemSize)
  overwrite buffer lo hi (Tone.sample r.format i (r.run.produced + n))

/-- Put the first samples of a delivery into buffer `i`. -/
def putSamples (r : Receiver α) (i : Nat) (buffer : List UInt8) :
    Nat → Except Fault (List UInt8)
  | 0 => .ok buffer
  | count + 1 => do
    let buffer ← r.putSamples i buffer count
    r.putSample i buffer count

/-- Put samples into every buffer. -/
def fillChecked (r : Receiver α) (count : Nat) (buffers : List (List UInt8)) :
    Except Fault (List (List UInt8)) :=
  buffers.zipIdx.mapM fun (buffer, i) => r.putSamples i buffer count

theorem putSample_eq_ok_iff {r : Receiver α} {i n : Nat} {buffer written : List UInt8} :
    r.putSample i buffer n = .ok written ↔
      (n + 1) * r.itemSize ≤ buffer.length ∧ (n + 1) * r.itemSize < Word.limit ∧
      buffer.take (n * r.itemSize) ++ Tone.sample r.format i (r.run.produced + n) ++
        buffer.drop ((n + 1) * r.itemSize) = written := by
  have hbegin : n * r.itemSize ≤ (n + 1) * r.itemSize := Nat.mul_le_mul_right _ (Nat.le_succ n)
  have hnext : n + 1 ≤ (n + 1) * r.itemSize := Nat.le_mul_of_pos_right _ r.format.itemSize_pos
  simp only [putSample, bind_eq_ok_iff, Checked.size_eq_ok_iff, overwrite_eq_ok_iff]
  constructor
  · rintro ⟨_, ⟨-, rfl⟩, _, ⟨-, rfl⟩, _, ⟨hfits, rfl⟩, -, hinside, hwritten⟩
    exact ⟨hinside, hfits, hwritten⟩
  · rintro ⟨hinside, hfits, hwritten⟩
    exact ⟨_, ⟨by omega, rfl⟩, _, ⟨by omega, rfl⟩, _, ⟨hfits, rfl⟩, hbegin, hinside, hwritten⟩

/-- There are places for so many samples if and only if they fit into the buffer, and the last
offset into a word.  The induction is on the samples: those before the last leave the buffer as
long as it was. -/
theorem putSamples_eq_ok_iff {r : Receiver α} {i count : Nat} {buffer written : List UInt8} :
    r.putSamples i buffer count = .ok written ↔
      (count * r.itemSize ≤ buffer.length ∧ count * r.itemSize < Word.limit) ∧
      Tone.samples r.format i r.run.produced count ++ buffer.drop (count * r.itemSize) =
        written := by
  induction count generalizing written with
  | zero => simp [putSamples, Tone.samples_zero, Word.limit]
  | succ n ih =>
    have hstep : n * r.itemSize ≤ (n + 1) * r.itemSize := Nat.mul_le_mul_right _ (Nat.le_succ n)
    have hlength : n * r.itemSize ≤ buffer.length →
        (Tone.samples r.format i r.run.produced n ++ buffer.drop (n * r.itemSize)).length =
          buffer.length :=
      Tone.length_samples_append_drop r.format i r.run.produced
    have hplace := Tone.samples_overwrites r.format i r.run.produced n buffer
    rw [putSamples, bind_eq_ok_iff]
    constructor
    · rintro ⟨before, hbefore, hput⟩
      obtain ⟨⟨hinside, -⟩, rfl⟩ := ih.1 hbefore
      obtain ⟨hinside', hfits, rfl⟩ := putSample_eq_ok_iff.1 hput
      rw [hlength hinside] at hinside'
      exact ⟨⟨hinside', hfits⟩, hplace.symm⟩
    · rintro ⟨⟨hinside, hfits⟩, rfl⟩
      have hbefore : n * r.itemSize ≤ buffer.length := by omega
      refine ⟨_, ih.2 ⟨⟨hbefore, by omega⟩, rfl⟩, putSample_eq_ok_iff.2 ⟨?_, hfits, hplace⟩⟩
      rw [hlength hbefore]
      exact hinside

/-- Room for samples in every buffer. -/
def HasRoom (r : Receiver α) (count : Nat) (buffers : List (List UInt8)) : Prop :=
  ∀ buffer ∈ buffers, count * r.itemSize ≤ buffer.length ∧ count * r.itemSize < Word.limit

theorem fillChecked_eq_ok_iff {r : Receiver α} {count : Nat} {buffers filled : List (List UInt8)} :
    r.fillChecked count buffers = .ok filled ↔
      r.HasRoom count buffers ∧ r.fill count buffers = filled := by
  have hroom : (∀ x ∈ buffers.zipIdx, count * r.itemSize ≤ x.1.length ∧
      count * r.itemSize < Word.limit) ↔ r.HasRoom count buffers := by
    unfold HasRoom
    conv => rhs; rw [← List.zipIdx_map_fst 0 buffers]
    rw [List.forall_mem_map]
  -- no buffer depends on another, so that the results are those of a map
  unfold fillChecked
  simp only [mapM_eq_ok_iff, putSamples_eq_ok_iff]
  rw [List.forall₂_and_left, hroom, ← List.forall₂_map_left_iff, List.forall₂_eq_eq_eq]
  rfl

/-! ## Deliveries -/

/-- The run after `count` samples, and whether they end the burst. -/
def advanceChecked (run : Run α) (count : Nat) : Except Fault (Run α × Bool) :=
  let run := { run with firstPacket := false, produced := run.produced + count }
  match run.mode with
  | .finite remaining endsBurst => do
    let left ← Checked.subSize remaining count
    if left = 0 then return ({ run with mode := .idle }, endsBurst)
    else return ({ run with mode := .finite left endsBurst }, false)
  | _ => .ok (run, false)

theorem advanceChecked_eq_ok {run : Run α} {count : Nat}
    (h : ∀ remaining endsBurst, run.mode = .finite remaining endsBurst → count ≤ remaining) :
    advanceChecked run count = .ok (advance run count) := by
  unfold advanceChecked advance
  cases hmode : run.mode with
  | idle => rfl
  | continuous => rfl
  | finite remaining endsBurst =>
    have hleft : Checked.subSize remaining count = .ok (remaining - count) :=
      Checked.subSize_eq_ok_iff.2 ⟨h remaining endsBurst hmode, rfl⟩
    simp only [hleft, bind, Except.bind]
    by_cases hnone : remaining - count = 0
    · simp only [if_pos hnone]
      rfl
    · simp only [if_neg hnone]
      rfl

/-- Of a burst, no more is delivered than remains. -/
theorem portion_le_remaining {r : Receiver α} {remaining : Nat} {endsBurst : Bool}
    (h : r.run.mode = .finite remaining endsBurst) (wanted : Nat) (onePacket : Bool) :
    r.portion wanted onePacket ≤ remaining := by
  unfold portion
  rw [h]
  dsimp only
  split <;> omega

variable [Scalar α]

/-- Deliver samples, step by step. -/
def deliverChecked (r : Receiver α) (wanted : Nat) (onePacket : Bool)
    (buffers : List (List UInt8)) : Except Fault (Received α) := do
  let count := r.portion wanted onePacket
  let filled ← r.fillChecked count buffers
  match r.run.streamStart.addSecs (Scalar.ofInt r.run.produced / r.rate) with
  | .error f => return ⟨.error f, filled, r⟩
  | .ok time =>
    let (run, ends) ← advanceChecked r.run count
    let md := { (RxMetadata.blank : RxMetadata α) with
      hasTime := true
      time := time
      startOfBurst := r.run.firstPacket
      endOfBurst := ends }
    return ⟨.ok (md, count), filled, { r with run := run }⟩

theorem deliverChecked_eq_ok_iff {r : Receiver α} {wanted : Nat} {onePacket : Bool}
    {buffers : List (List UInt8)} {x : Received α} :
    r.deliverChecked wanted onePacket buffers = .ok x ↔
      r.HasRoom (r.portion wanted onePacket) buffers ∧
      r.deliver wanted onePacket buffers = x := by
  have hadvance : advanceChecked r.run (r.portion wanted onePacket) =
      .ok (advance r.run (r.portion wanted onePacket)) :=
    advanceChecked_eq_ok fun _ _ hmode => portion_le_remaining hmode wanted onePacket
  unfold deliverChecked deliver
  dsimp only
  rw [bind_eq_ok_iff]
  simp only [fillChecked_eq_ok_iff]
  constructor
  · rintro ⟨filled, ⟨hroom, rfl⟩, hrest⟩
    refine ⟨hroom, ?_⟩
    cases htime : r.run.streamStart.addSecs (Scalar.ofInt r.run.produced / r.rate) with
    | error f =>
      rw [htime] at hrest
      exact pure_eq_ok_iff.1 hrest
    | ok time =>
      rw [htime, hadvance] at hrest
      exact pure_eq_ok_iff.1 hrest
  · rintro ⟨hroom, rfl⟩
    refine ⟨_, ⟨hroom, rfl⟩, ?_⟩
    cases htime : r.run.streamStart.addSecs (Scalar.ofInt r.run.produced / r.rate) with
    | error f => rfl
    | ok time =>
      dsimp only
      rw [hadvance]
      rfl

end Receiver

/-! ## Transfers -/

namespace Attempt

open Receiver

variable [Scalar α]

/-- The transfer on a stream, with a delivery step by step. -/
def onChecked (a : Attempt σ α) (r : Receiver α) : Except Fault (Received α) :=
  match checkBuffers a.buffers.length r.channelCount (a.buffers.map List.length) a.wanted
    r.itemSize with
  | .error f => .ok ⟨.error f, a.buffers, r⟩
  | .ok () =>
    match listen a.world a.deadline (a.further + 1) a.state r with
    | (.ok .ready, _, r) => r.deliverChecked a.wanted a.onePacket a.buffers
    | (verdict, _, r) => .ok (a.conclude verdict r)

/-- What a transfer does to its buffers and to the burst, on a stream in any state. -/
structure InBounds (a : Attempt σ α) (r : Receiver α) : Prop where
  /-- Every sample has its place, which ends in the buffer. -/
  places : ∀ buffer ∈ a.buffers, ∀ n < r.portion a.wanted a.onePacket,
    n * r.itemSize ≤ (n + 1) * r.itemSize ∧ (n + 1) * r.itemSize ≤ buffer.length
  /-- The offsets of its beginning and of its end are words. -/
  offsets : a.buffers ≠ [] → ∀ n < r.portion a.wanted a.onePacket,
    n * r.itemSize < Word.limit ∧ (n + 1) * r.itemSize < Word.limit
  /-- What is delivered of a burst remained of it. -/
  remains : ∀ remaining endsBurst, r.run.mode = .finite remaining endsBurst →
    r.portion a.wanted a.onePacket ≤ remaining
  /-- So none of these steps crashes in a delivery, -/
  delivery : r.deliverChecked a.wanted a.onePacket a.buffers =
    .ok (r.deliver a.wanted a.onePacket a.buffers)
  /-- nor in the one that the transfer comes to, if it comes to one. -/
  transfer : a.onChecked r = .ok (a.on r)

variable {a : Attempt σ α} {r : Receiver α}

omit [Scalar α] in
/-- Buffers that pass the check have room for whatever can be delivered, at offsets that are
words. -/
theorem Accepted.hasRoom (h : a.Accepted r)
    (hmemory : ∀ buffer ∈ a.buffers, buffer.length ≤ Capacity.limit) {count : Nat}
    (hcount : count ≤ a.wanted) : r.HasRoom count a.buffers := by
  intro buffer hbuffer
  have hlimit := hmemory buffer hbuffer
  have hlong := h.wanted_le hmemory buffer hbuffer
  have hless : count * r.itemSize ≤ a.wanted * r.itemSize := Nat.mul_le_mul_right _ hcount
  unfold Capacity.limit at hlimit
  unfold Word.limit
  omega

theorem Accepted.deliverChecked_eq (h : a.Accepted r)
    (hmemory : ∀ buffer ∈ a.buffers, buffer.length ≤ Capacity.limit) :
    r.deliverChecked a.wanted a.onePacket a.buffers =
      .ok (r.deliver a.wanted a.onePacket a.buffers) :=
  deliverChecked_eq_ok_iff.2 ⟨h.hasRoom hmemory (r.portion_le a.wanted a.onePacket), rfl⟩

/-- The stream that delivers has the channels and the format of the one that was checked. -/
theorem Accepted.onChecked_eq (h : a.Accepted r)
    (hmemory : ∀ buffer ∈ a.buffers, buffer.length ≤ Capacity.limit) :
    a.onChecked r = .ok (a.on r) := by
  have hlisten := receiver_listen a.world a.deadline (a.further + 1) a.state r
  rw [on_eq_listen h]
  unfold onChecked
  rw [show checkBuffers _ _ _ _ _ = .ok () from h]
  dsimp only
  revert hlisten
  match listen a.world a.deadline (a.further + 1) a.state r with
  | (.error f, s, r') => exact fun _ => rfl
  | (.ok .late, s, r') => exact fun _ => rfl
  | (.ok .timeout, s, r') => exact fun _ => rfl
  | (.ok .ready, s, r') =>
    intro hlisten
    have hr' : r' = { r with run := r'.run } := hlisten
    have haccepted : a.Accepted r' := by
      rw [hr']
      exact h
    exact haccepted.deliverChecked_eq hmemory

theorem Accepted.inBounds (h : a.Accepted r)
    (hmemory : ∀ buffer ∈ a.buffers, buffer.length ≤ Capacity.limit) : a.InBounds r := by
  have hroom := h.hasRoom hmemory (r.portion_le a.wanted a.onePacket)
  have hbegin : ∀ n, n * r.itemSize ≤ (n + 1) * r.itemSize := fun n =>
    Nat.mul_le_mul_right _ (Nat.le_succ n)
  have hend : ∀ n < r.portion a.wanted a.onePacket,
      (n + 1) * r.itemSize ≤ r.portion a.wanted a.onePacket * r.itemSize := fun n hn =>
    Nat.mul_le_mul_right _ hn
  constructor
  case places =>
    intro buffer hbuffer n hn
    exact ⟨hbegin n, (hend n hn).trans (hroom buffer hbuffer).1⟩
  case offsets =>
    intro hsome n hn
    obtain ⟨buffer, hbuffer⟩ := List.exists_mem_of_ne_nil _ hsome
    have hfits := (hend n hn).trans_lt (hroom buffer hbuffer).2
    exact ⟨(hbegin n).trans_lt hfits, hfits⟩
  case remains => exact fun _ _ hmode => portion_le_remaining hmode a.wanted a.onePacket
  case delivery => exact h.deliverChecked_eq hmemory
  case transfer => exact h.onChecked_eq hmemory

/-- Of buffers that memory can hold, the check accepts exactly those that are as many as the
channels and have room for all that is asked for, whatever that is.  And a transfer that it
accepts stays in bounds, in any state of its stream, whether it is one packet or not. -/
theorem check_exact_and_inBounds :
    (∀ (buffers channels : Nat) (sizes : List Nat) (count itemSize : Nat),
      (∀ size ∈ sizes, size ≤ Capacity.limit) →
      (checkBuffers buffers channels sizes count itemSize = .ok () ↔
        buffers = channels ∧ ∀ size ∈ sizes, count * itemSize ≤ size)) ∧
    ∀ (a : Attempt σ α) (r : Receiver α),
      (∀ buffer ∈ a.buffers, buffer.length ≤ Capacity.limit) → a.Accepted r → a.InBounds r := by
  constructor
  · intro buffers channels sizes count itemSize hmemory
    rw [checkBuffers_eq_ok_iff]
    refine and_congr_right fun _ => forall₂_congr fun size hsize => ?_
    exact min_limit_le_iff (hmemory size hsize)
  · intro a r hmemory haccepted
    exact haccepted.inBounds hmemory

/-- A product that no word can tell is refused.  And when two samples are left of a burst, two of
the four that are asked for are put into a buffer that has room for four. -/
theorem check_exact_and_inBounds_threes :
    let r := ((Stage.still 4 true).on Stage.threes.receiver).receiver
    let a := Stage.still 4 false
    checkBuffers 1 1 [9] 9223372036854775808 16 ≠ .ok () ∧
      (∀ buffer ∈ a.buffers, buffer.length ≤ Capacity.limit) ∧ a.Accepted r ∧ a.InBounds r ∧
      r.run.mode = .finite 2 true ∧ (a.on r).count = 2 := by
  intro r a
  obtain ⟨hexact, hbounds⟩ := check_exact_and_inBounds (σ := Unit) (α := ℚ)
  have hmemory : ∀ buffer ∈ a.buffers, buffer.length ≤ Capacity.limit := by decide
  have haccepted : a.Accepted r := by
    unfold Accepted
    decide +kernel
  refine ⟨fun h => ?_, hmemory, haccepted, hbounds a r hmemory haccepted, by decide +kernel,
    by decide +kernel⟩
  have hroom := (hexact 1 1 [9] 9223372036854775808 16 (by decide)).1 h
  exact absurd hroom (by decide)

end Attempt

end SoftRadio
