import SoftRadio.Time.Clock

/-!
# Whole seconds that fit into a word

The whole part of every number is a word, as it is clamped.  So a device time can always be read,
and of all that is done with points in time only the sums and differences of whole seconds can
fail, when they do not fit.

* `Word.small`: numbers of which any two have a sum and a difference that fit.
* `Scalar.WordSized`: the arithmetics that clamp whole parts, double precision among them.
* `Clock.reading`, `Clock.now_eq`: what a clock reads.
* `TimeSpec.addSecs_eq`, `TimeSpec.secsUntil_eq`: when a sum or a difference crashes.
-/

namespace SoftRadio

/-- Whether a number is less than two to the power of 62 in size.  Any two such numbers have a sum
and a difference that fit. -/
def Word.small (n : Int) : Bool := -4611686018427387904 < n && n < 4611686018427387904

theorem Word.fits_add_of_small {a b : Int} (ha : small a) (hb : small b) : fits (a + b) := by
  unfold small at ha hb
  unfold fits least greatest
  simp only [Bool.and_eq_true, decide_eq_true_eq] at ha hb ⊢
  omega

theorem Word.fits_sub_of_small {a b : Int} (ha : small a) (hb : small b) : fits (a - b) := by
  unfold small at ha hb
  unfold fits least greatest
  simp only [Bool.and_eq_true, decide_eq_true_eq] at ha hb ⊢
  omega

/-- An arithmetic whose whole parts are words. -/
class Scalar.WordSized (α : Type) [Scalar α] : Prop where
  fits_toInt : ∀ x : α, Word.fits (Scalar.toInt x)

instance : Scalar.WordSized Float where
  fits_toInt x := by
    show Word.fits (Binary64.toWord x)
    unfold Binary64.toWord
    split
    · rfl
    · split <;> rfl
    · exact Word.fits_clamp _

namespace TimeSpec

variable {α : Type} [Scalar α]

/-- The whole seconds that are carried out of a fraction. -/
def carry (frac : α) : Int := Scalar.toInt (Scalar.floor frac)

theorem make_eq (full : Int) (frac : α) : make full frac =
    if Word.fits (full + carry frac) then .ok ⟨full + carry frac, frac - Scalar.floor frac⟩
    else crash "attempt to add with overflow" := by
  unfold make Checked.add carry
  dsimp only
  split <;> rfl

theorem addSecs_eq (t : TimeSpec α) (secs : α) : t.addSecs secs =
    if Word.fits (t.full + carry (t.frac + secs)) then
      .ok ⟨t.full + carry (t.frac + secs), t.frac + secs - Scalar.floor (t.frac + secs)⟩
    else crash "attempt to add with overflow" :=
  make_eq t.full (t.frac + secs)

theorem secsUntil_eq (t later : TimeSpec α) : t.secsUntil later =
    if Word.fits (later.full - t.full) then
      .ok (Scalar.ofInt (later.full - t.full) + (later.frac - t.frac))
    else crash "attempt to subtract with overflow" := by
  unfold secsUntil Checked.sub
  split <;> rfl

end TimeSpec

namespace Clock

variable {α : Type} [Scalar α]

/-- What a clock reads when `elapsed` seconds have passed. -/
def reading (c : Clock α) (elapsed : α) : TimeSpec α :=
  ⟨TimeSpec.carry (elapsed + c.offset),
    elapsed + c.offset - Scalar.floor (elapsed + c.offset)⟩

/-- A clock can always be read. -/
theorem now_eq [Scalar.WordSized α] (c : Clock α) (elapsed : α) :
    c.now elapsed = .ok (c.reading elapsed) := by
  have hfits : Word.fits (0 + TimeSpec.carry (elapsed + c.offset)) := by
    rw [Int.zero_add]
    exact Scalar.WordSized.fits_toInt _
  unfold now TimeSpec.ofSecs reading
  rw [TimeSpec.make_eq, if_pos hfits, Int.zero_add]

end Clock

end SoftRadio
