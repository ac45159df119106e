import Mathlib.Data.Rat.Floor
import SoftRadio.Proofs.WholeSeconds

/-!
# Exact arithmetic

The rational numbers as an arithmetic: nothing is rounded unless rounding is asked for, and every
number is one.  There is no greatest number, and in the place of infinity stands a number that is
greater than all that double precision can hold.
-/

namespace SoftRadio

/-- The number that a numeral denotes, if there is one. -/
def Decimal.Numeral.toRat? : Decimal.Numeral → Option ℚ
  | .finite negative digits exponent =>
    let size : ℚ := digits * 10 ^ exponent
    some (if negative then -size else size)
  | _ => none

/-- Exact arithmetic. -/
instance : Scalar ℚ where
  ofInt n := n
  lt a b := a < b
  le a b := a ≤ b
  abs x := |x|
  floor x := ⌊x⌋
  round x := if 0 ≤ x then ⌊x + 1 / 2⌋ else -⌊1 / 2 - x⌋
  toInt x := Word.clamp (x.num.tdiv x.den)
  isNaN _ := false
  isFinite _ := true
  infinity := 2 ^ 1024
  nan := 0
  text x := s!"{x.num}/{x.den}"
  read? s := (Decimal.read? s).bind Decimal.Numeral.toRat?

instance : Scalar.WordSized ℚ where
  fits_toInt x := Word.fits_clamp (x.num.tdiv x.den)

/-- The whole part of a number, as far as it fits. -/
theorem Scalar.toInt_floor (x : ℚ) : Scalar.toInt (Scalar.floor x) = Word.clamp ⌊x⌋ := by
  show Word.clamp (Int.tdiv ((⌊x⌋ : Int) : ℚ).num ((⌊x⌋ : Int) : ℚ).den) = Word.clamp ⌊x⌋
  rw [Rat.num_intCast, Rat.den_intCast, Nat.cast_one, Int.tdiv_one]

/-- Whole seconds are carried out of the fraction, as long as they fit. -/
theorem TimeSpec.make_eq_ok {full : Int} {frac : ℚ} (hcarry : Word.fits ⌊frac⌋)
    (hfull : Word.fits (full + ⌊frac⌋)) :
    TimeSpec.make full frac = .ok ⟨full + ⌊frac⌋, frac - ⌊frac⌋⟩ := by
  have hint : carry frac = ⌊frac⌋ := by
    unfold carry
    rw [Scalar.toInt_floor, Word.clamp_of_fits _ hcarry]
  rw [make_eq, hint, if_pos hfull]
  rfl

/-- Counting whole seconds from zero, they are the time. -/
theorem TimeSpec.addSecs_zero {n : Nat} (h : Word.fits n) :
    (TimeSpec.zero : TimeSpec ℚ).addSecs (n : ℚ) = .ok ⟨n, 0⟩ := by
  have hsum : (TimeSpec.zero : TimeSpec ℚ).frac + (n : ℚ) = n := zero_add _
  have hfloor : ⌊(n : ℚ)⌋ = n := Int.floor_natCast n
  unfold TimeSpec.addSecs
  rw [hsum, TimeSpec.make_eq_ok (by rwa [hfloor]) (by rw [hfloor]; simpa [TimeSpec.zero] using h),
    hfloor]
  simp [TimeSpec.zero]

/-- A point in time as it is kept: the whole seconds fit, and what is left is less than one. -/
structure TimeSpec.Normal (t : TimeSpec ℚ) : Prop where
  fits : Word.fits t.full
  nonneg : 0 ≤ t.frac
  lt_one : t.frac < 1

/-- Every point that is made is kept so. -/
theorem TimeSpec.normal_of_make {full : Int} {frac : ℚ} {t : TimeSpec ℚ}
    (h : TimeSpec.make full frac = .ok t) : t.Normal := by
  rw [TimeSpec.make_eq] at h
  split at h
  · rename_i hfits
    cases h
    refine ⟨hfits, ?_, ?_⟩
    · exact sub_nonneg.2 (Int.floor_le frac)
    · exact sub_lt_iff_lt_add.2 (add_comm ((⌊frac⌋ : Int) : ℚ) 1 ▸ Int.lt_floor_add_one frac)
  · cases h

/-- Points that are kept so are in the order of the seconds that they stand for. -/
theorem TimeSpec.Normal.isBefore_iff {a b : TimeSpec ℚ} (ha : a.Normal) (hb : b.Normal) :
    a.isBefore b ↔ a.toSecs < b.toSecs := by
  have hcast : ∀ t : TimeSpec ℚ, t.toSecs = (t.full : ℚ) + t.frac := fun _ => rfl
  have hless : ∀ {a b : TimeSpec ℚ}, a.Normal → b.Normal → a.full < b.full →
      a.toSecs < b.toSecs := by
    intro a b ha hb h
    have hfull : (a.full : ℚ) + 1 ≤ b.full := by exact_mod_cast h
    rw [hcast, hcast]
    linarith [ha.lt_one, hb.nonneg]
  unfold TimeSpec.isBefore TimeSpec.compare?
  rcases lt_trichotomy a.full b.full with h | h | h
  · simp [h, hless ha hb h]
  · rw [hcast, hcast, h]
    by_cases hfrac : a.frac < b.frac
    · simp [Scalar.lt, hfrac]
    · by_cases hfrac' : b.frac < a.frac
      · simp [Scalar.lt, hfrac, hfrac']
      · simp [Scalar.lt, Scalar.eq, Scalar.le, hfrac, hfrac', not_lt.1 hfrac, not_lt.1 hfrac']
  · simp [h, h.not_gt, (hless hb ha h).not_gt]

/-- Adding nothing to a point that is kept so gives the same point. -/
theorem TimeSpec.Normal.addSecs_zero {t : TimeSpec ℚ} (h : t.Normal) : t.addSecs 0 = .ok t := by
  have hfloor : ⌊t.frac⌋ = 0 := Int.floor_eq_zero_iff.2 ⟨h.nonneg, h.lt_one⟩
  unfold TimeSpec.addSecs
  rw [show t.frac + 0 = t.frac from add_zero _,
    TimeSpec.make_eq_ok (by rw [hfloor]; rfl) (by rw [hfloor, Int.add_zero]; exact h.fits), hfloor]
  simp

/-- A point in time is read from its seconds. -/
theorem TimeSpec.Normal.ofSecs_toSecs {t : TimeSpec ℚ} (h : t.Normal) :
    TimeSpec.ofSecs t.toSecs = .ok t := by
  have hsecs : t.toSecs = t.full + t.frac := rfl
  have hfloor : ⌊t.toSecs⌋ = t.full := by
    rw [hsecs, Int.floor_intCast_add, Int.floor_eq_zero_iff.2 ⟨h.nonneg, h.lt_one⟩, add_zero]
  have hfull : 0 + ⌊t.toSecs⌋ = t.full := by rw [hfloor, zero_add]
  unfold TimeSpec.ofSecs
  rw [TimeSpec.make_eq_ok (hfloor.symm ▸ h.fits) (hfull.symm ▸ h.fits), hfull, hfloor, hsecs,
    add_sub_cancel_left]

end SoftRadio
