import SoftRadio.Proofs.Binary64.Value

/-!
# Rounding to doubles

A number that has been computed exactly is rounded by shifting its mantissa to the right.  Two bits
tell of what is shifted out: the last one, and whether there was any before it.  They are enough to
go to the nearest double, and halfway to the one with an even mantissa.

* `RoundsTo`: what the mantissa and the exponent are that a number is rounded to.
* `RoundsTo.nearest`: no double is nearer to it.
* `RoundsTo.eq_of_grid`: a number that can be held exactly is not changed.
* `shiftRight_eq`: the two bits; `roundedMantissa_near`: where they lead.
* `exists_roundWithAccuracy`, `exists_normalize`: what the arithmetic rounds to.
-/

namespace SoftRadio.Binary64

open Float.Model Float.Model.UnpackedFloat

/-- The number `v` is rounded to `n · 2 ^ e`: no multiple of that power of two is nearer, the power
is the one that goes with the size of `v`, and `n` is even if the next multiple is as near. -/
structure RoundsTo (v : ℚ) (n e : ℤ) : Prop where
  least_le : -1074 ≤ e
  lt : |v| < 2 ^ 53 * 2 ^ e
  full_or_least : 2 ^ 52 * 2 ^ e ≤ |v| ∨ e = -1074
  near : 2 * |v - n * 2 ^ e| ≤ 2 ^ e
  even : 2 * |v - n * 2 ^ e| = 2 ^ e → Even n

/-- What is this large is rounded to infinity. -/
def limit : ℚ := 2 ^ 1024 - 2 ^ 970

namespace RoundsTo

variable {v : ℚ} {n e : ℤ}

theorem zero : RoundsTo 0 0 (-1074) where
  least_le := le_rfl
  lt := by
    rw [abs_zero]
    positivity
  full_or_least := .inr rfl
  near := by
    rw [Int.cast_zero, zero_mul, sub_zero, abs_zero, mul_zero]
    positivity
  even _ := Even.zero

theorem neg (h : RoundsTo v n e) : RoundsTo (-v) (-n) e := by
  have habs : |-v - (-n : ℤ) * 2 ^ e| = |v - n * 2 ^ e| := by
    rw [← abs_neg, Int.cast_neg]
    congr 1
    ring
  exact ⟨h.least_le, by rw [abs_neg]; exact h.lt, by rw [abs_neg]; exact h.full_or_least,
    habs ▸ h.near, fun htie => (h.even (habs ▸ htie)).neg⟩

theorem apply {m : ℕ} {d : ℤ} (h : RoundsTo (m * 2 ^ d) n e) (s : Sign) :
    RoundsTo (s.apply m * 2 ^ d) (s.apply n) e := by
  cases s with
  | negative =>
    have hneg := h.neg
    rw [← neg_mul] at hneg
    simpa [Sign.apply] using hneg
  | positive => exact h

/-- A number that can be held exactly is rounded to itself. -/
theorem eq_of_grid {m d : ℤ} (h : RoundsTo (m * 2 ^ d) n e) (hm : |m| < 2 ^ 53)
    (hd : -1074 ≤ d) : (n : ℚ) * 2 ^ e = m * 2 ^ d := by
  have hpos : (0 : ℚ) < 2 ^ e := by positivity
  have hle : e ≤ d := by
    rcases h.full_or_least with hfull | rfl
    · have hsize : |(m : ℚ) * 2 ^ d| < 2 ^ 53 * 2 ^ d := by
        rw [abs_mul, abs_of_pos (by positivity : (0 : ℚ) < 2 ^ d)]
        exact mul_lt_mul_of_pos_right (by exact_mod_cast hm) (by positivity)
      have hpow : (2 : ℚ) ^ e < 2 ^ (d + 1) := by
        rw [zpow_add_one₀ two_ne_zero]
        linarith
      exact Int.lt_add_one_iff.1 ((zpow_lt_zpow_iff_right₀ one_lt_two).1 hpow)
    · exact hd
  -- both lie on the grid of the rounded one, less than its spacing apart
  obtain ⟨k, rfl⟩ : ∃ k : ℕ, d = e + k := ⟨(d - e).toNat, by omega⟩
  have hgrid : (m : ℚ) * 2 ^ (e + k) - n * 2 ^ e = ((m * 2 ^ k - n : ℤ) : ℚ) * 2 ^ e := by
    rw [zpow_add₀ two_ne_zero, zpow_natCast]
    push_cast
    ring
  have hnear := h.near
  rw [hgrid, abs_mul, abs_of_pos hpos] at hnear
  have hsmall : |((m * 2 ^ k - n : ℤ) : ℚ)| < 1 := by
    by_contra hge
    have := mul_le_mul_of_nonneg_right (not_lt.1 hge) hpos.le
    linarith
  have hzero : m * 2 ^ k - n = 0 := Int.abs_lt_one_iff.1 (by exact_mod_cast hsmall)
  rw [hzero, Int.cast_zero, zero_mul] at hgrid
  linarith

/-- Sizes are rounded as the numbers are. -/
theorem abs_near (h : RoundsTo v n e) :
    2 * (|(n : ℚ)| * 2 ^ e) ≤ 2 * |v| + 2 ^ e ∧ 2 * |v| ≤ 2 * (|(n : ℚ)| * 2 ^ e) + 2 ^ e := by
  have hpos : (0 : ℚ) < 2 ^ e := by positivity
  have hnear := h.near
  have hsizes := abs_abs_sub_abs_le v ((n : ℚ) * 2 ^ e)
  rw [abs_mul, abs_of_pos hpos] at hsizes
  obtain ⟨hlow, hhigh⟩ := abs_le.1 hsizes
  constructor <;> linarith

/-- A mantissa is rounded to 53 bits, or to the next power of two. -/
theorem mantissa_le (h : RoundsTo v n e) : |n| ≤ 2 ^ 53 := by
  have hpos : (0 : ℚ) < 2 ^ e := by positivity
  have hprod : |(n : ℚ)| * 2 ^ e < (2 ^ 53 + 1) * 2 ^ e := by linarith [h.abs_near.1, h.lt]
  have hcast : |n| < 2 ^ 53 + 1 := by
    exact_mod_cast lt_of_mul_lt_mul_right hprod hpos.le
  omega

/-- A rounded mantissa keeps its first bit. -/
theorem le_mantissa (h : RoundsTo v n e) : 2 ^ 52 ≤ |n| ∨ e = -1074 := by
  refine h.full_or_least.imp_left fun hfull => ?_
  have hpos : (0 : ℚ) < 2 ^ e := by positivity
  have hprod : (2 ^ 52 : ℚ) * 2 ^ e < (|(n : ℚ)| + 1) * 2 ^ e := by linarith [h.abs_near.2]
  have hcast : 2 ^ 52 < |n| + 1 := by
    exact_mod_cast lt_of_mul_lt_mul_right hprod hpos.le
  omega

/-- Below the limit there is room for the exponent, also for that of the next power of two. -/
theorem exponent_le (h : RoundsTo v n e) (hv : |v| < limit) :
    e ≤ 971 ∧ (|n| = 2 ^ 53 → e ≤ 970) := by
  have hle : e ≤ 971 := by
    rcases h.full_or_least with hfull | rfl
    · have hlimit : limit < 2 ^ (1024 : ℤ) := by decide +kernel
      have hpow : (2 : ℚ) ^ (52 + e) < 2 ^ (1024 : ℤ) := by
        rw [zpow_add₀ two_ne_zero]
        exact hfull.trans_lt (hv.trans hlimit)
      have := (zpow_lt_zpow_iff_right₀ one_lt_two).1 hpow
      omega
    · decide
  refine ⟨hle, fun hn => ?_⟩
  by_contra hgreatest
  obtain rfl : e = 971 := by omega
  have hlimit : 2 * limit + 2 ^ (971 : ℤ) = 2 * (2 ^ 53 * 2 ^ (971 : ℤ)) := by decide +kernel
  have hcast : |(n : ℚ)| = 2 ^ 53 := by exact_mod_cast hn
  have hnear := h.abs_near.1
  rw [hcast] at hnear
  linarith

/-- No multiple of the spacing is nearer. -/
theorem near_le (h : RoundsTo v n e) (k : ℤ) : |v - n * 2 ^ e| ≤ |v - k * 2 ^ e| := by
  rcases eq_or_ne k n with rfl | hne
  · exact le_rfl
  · have hpos : (0 : ℚ) < 2 ^ e := by positivity
    have hapart : (2 : ℚ) ^ e ≤ |(k : ℚ) * 2 ^ e - n * 2 ^ e| := by
      have hone : (1 : ℚ) ≤ |(k : ℚ) - n| := by exact_mod_cast Int.one_le_abs (sub_ne_zero.2 hne)
      rw [← sub_mul, abs_mul, abs_of_pos hpos]
      exact le_mul_of_one_le_left hpos.le hone
    have htriangle := abs_sub_le ((k : ℚ) * 2 ^ e) v (n * 2 ^ e)
    rw [abs_sub_comm ((k : ℚ) * 2 ^ e) v] at htriangle
    linarith [h.near]

/-- No double is nearer. -/
theorem nearest (h : RoundsTo v n e) {m : ℕ} {d : ℤ} (hm : Canonical m d) (s : Sign) :
    |v - n * 2 ^ e| ≤ |v - s.apply m * 2 ^ d| := by
  rcases le_or_gt e d with hle | hgt
  · obtain ⟨k, rfl⟩ : ∃ k : ℕ, d = e + k := ⟨(d - e).toNat, by omega⟩
    have hmultiple : (s.apply m : ℚ) * 2 ^ (e + k) = (s.apply m * 2 ^ k : ℤ) * 2 ^ e := by
      rw [zpow_add₀ two_ne_zero, zpow_natCast]
      push_cast
      ring
    rw [hmultiple]
    exact h.near_le _
  · -- finer doubles end below the least number of this size, which is a multiple
    have hfull : 2 ^ 52 * 2 ^ e ≤ |v| :=
      h.full_or_least.resolve_right (by have := hm.least_le; omega)
    have hbelow := hm.lt_full hgt
    have hleast : |v - n * 2 ^ e| ≤ |v| - 2 ^ 52 * 2 ^ e := by
      rcases le_total 0 v with hv | hv
      · have hnear := h.near_le (2 ^ 52)
        rw [Int.cast_pow, Int.cast_ofNat] at hnear
        rw [abs_of_nonneg hv] at hfull ⊢
        rwa [abs_of_nonneg (sub_nonneg.2 hfull)] at hnear
      · have hnear := h.near_le (-2 ^ 52)
        rw [Int.cast_neg, Int.cast_pow, Int.cast_ofNat, neg_mul, sub_neg_eq_add] at hnear
        rw [abs_of_nonpos hv] at hfull ⊢
        have habs : |v + 2 ^ 52 * 2 ^ e| = -v - 2 ^ 52 * 2 ^ e := by
          rw [abs_of_nonpos (by linarith)]
          ring
        rwa [habs] at hnear
    have hsizes := abs_sub_abs_le_abs_sub v (s.apply m * 2 ^ d)
    rw [abs_apply] at hsizes
    linarith

end RoundsTo

/-! ## Round bits -/

/-- What remains of a mantissa after a shift, the last bit that was shifted out, and whether there
was another one before it. -/
theorem shiftRight_eq (m k : ℕ) : ExtendedMantissa.mk m false false >>> (k + 1) =
    ⟨m / 2 ^ (k + 1), m / 2 ^ k % 2 != 0, m % 2 ^ k != 0⟩ := by
  induction k with
  | zero =>
    show ExtendedMantissa.shiftRightOne ⟨m, false, false⟩ = _
    simp [ExtendedMantissa.shiftRightOne, Nat.mod_one]
  | succ k ih =>
    show ExtendedMantissa.shiftRightOne (ExtendedMantissa.mk m false false >>> (k + 1)) = _
    have hsticky : (m / 2 ^ k % 2 != 0 || m % 2 ^ k != 0) = (m % 2 ^ (k + 1) != 0) := by
      rw [Nat.mod_pow_succ, Bool.eq_iff_iff]
      simp only [Bool.or_eq_true, bne_iff_ne, ne_eq, Nat.add_eq_zero_iff, Nat.mul_eq_zero,
        Nat.pow_eq_zero, OfNat.ofNat_ne_zero, false_and, false_or]
      tauto
    rw [ih, ExtendedMantissa.shiftRightOne, hsticky, Nat.div_div_eq_div_mul, ← Nat.pow_succ]

/-- The two bits lead to the nearest whole number, and halfway to the even one. -/
theorem roundedMantissa_of_bits {d rest : ℕ} (half : ℕ) (bit : Bool) (h : rest < d) :
    let m : ℤ := d * (2 * half + bit.toNat) + rest
    let n : ℤ := (ExtendedMantissa.mk half bit (rest != 0)).roundedMantissa
    2 * |m - n * (d * 2)| ≤ d * 2 ∧ (2 * |m - n * (d * 2)| = d * 2 → Even n) := by
  intro m n
  cases bit with
  | false =>
    have hn : n = half := by
      cases hrest : rest != 0 <;> simp only [n, hrest] <;> rfl
    have hoff : m - n * (d * 2) = rest := by
      rw [hn]
      simp only [m, Bool.toNat_false]
      ring
    rw [hoff, abs_of_nonneg (by omega)]
    exact ⟨by omega, fun htie => by omega⟩
  | true =>
    cases hrest : rest != 0 with
    | false =>
      have hzero : rest = 0 := by simpa using hrest
      have hn : n = half + half % 2 := by
        simp only [n, hrest]
        rfl
      have hoff : m - n * (d * 2) = d * (1 - 2 * (half % 2)) := by
        rw [hn]
        simp only [m, Bool.toNat_true, hzero]
        push_cast
        ring
      have hsize : |(1 : ℤ) - 2 * (half % 2)| = 1 := by
        rcases Int.emod_two_eq_zero_or_one half with h | h <;> rw [h] <;> rfl
      rw [hoff, abs_mul, hsize, mul_one, abs_of_nonneg (by omega)]
      exact ⟨by omega, fun _ => Int.even_iff.2 (by omega)⟩
    | true =>
      have hsome : rest ≠ 0 := by simpa using hrest
      have hn : n = half + 1 := by
        simp only [n, hrest]
        rfl
      have hoff : m - n * (d * 2) = rest - d := by
        rw [hn]
        simp only [m, Bool.toNat_true]
        push_cast
        ring
      rw [hoff, abs_of_neg (by omega)]
      exact ⟨by omega, fun htie => by omega⟩

/-- Whatever is shifted out, the mantissa comes to the nearest whole number. -/
theorem roundedMantissa_near (m k : ℕ) :
    let n : ℤ := (ExtendedMantissa.mk m false false >>> k).roundedMantissa
    2 * |(m : ℤ) - n * 2 ^ k| ≤ 2 ^ k ∧ (2 * |(m : ℤ) - n * 2 ^ k| = 2 ^ k → Even n) := by
  cases k with
  | zero =>
    have hsame : (ExtendedMantissa.mk m false false >>> 0).roundedMantissa = m := rfl
    simp [hsame]
  | succ k =>
    have hhalf : m / 2 ^ (k + 1) = m / 2 ^ k / 2 := by
      rw [Nat.div_div_eq_div_mul, Nat.pow_succ]
    have hbit : (m / 2 ^ k % 2 != 0).toNat = m / 2 ^ k % 2 := by
      rcases Nat.mod_two_eq_zero_or_one (m / 2 ^ k) with h | h <;> rw [h] <;> rfl
    have hparts : (m : ℤ) = (2 ^ k : ℕ) *
        (2 * (m / 2 ^ k / 2 : ℕ) + (m / 2 ^ k % 2 != 0).toNat) + (m % 2 ^ k : ℕ) := by
      rw [hbit]
      norm_cast
      rw [Nat.div_add_mod, Nat.div_add_mod]
    have hnear := roundedMantissa_of_bits (m / 2 ^ k / 2) (m / 2 ^ k % 2 != 0)
      (Nat.mod_lt m (Nat.two_pow_pos k))
    dsimp only at hnear ⊢
    rw [← hparts, ← hhalf, ← shiftRight_eq] at hnear
    rw [pow_succ]
    exact_mod_cast hnear

/-! ## Rounding of a mantissa and an exponent -/

/-- The exponent that goes with a number of this size: the least one that leaves a mantissa of 53
bits, if there is one so small. -/
def sizeExponent (m : ℕ) (e : ℤ) : ℤ := max (m.log2 + 1 + e - 53) (-1074)

theorem targetExponent_eq (m : ℕ) (e : ℤ) :
    Format.binary64.targetExponent (totalExponent m e) = sizeExponent m e :=
  rfl

theorem lt_sizeExponent (m : ℕ) (e : ℤ) : (m : ℚ) * 2 ^ e < 2 ^ 53 * 2 ^ sizeExponent m e := by
  have hlog : (m : ℚ) < 2 ^ ((m.log2 + 1 : ℕ) : ℤ) := by
    rw [zpow_natCast]
    exact_mod_cast Nat.lt_log2_self
  have hexponent : ((m.log2 + 1 : ℕ) : ℤ) + e ≤ 53 + sizeExponent m e := by
    unfold sizeExponent
    omega
  calc (m : ℚ) * 2 ^ e < 2 ^ ((m.log2 + 1 : ℕ) : ℤ) * 2 ^ e :=
        mul_lt_mul_of_pos_right hlog (by positivity)
    _ = 2 ^ (((m.log2 + 1 : ℕ) : ℤ) + e) := (zpow_add₀ two_ne_zero _ _).symm
    _ ≤ 2 ^ (53 + sizeExponent m e) := zpow_le_zpow_right₀ one_le_two hexponent
    _ = 2 ^ 53 * 2 ^ sizeExponent m e := zpow_add₀ two_ne_zero _ _

theorem sizeExponent_le {m : ℕ} (hm : 0 < m) (e : ℤ) :
    (2 : ℚ) ^ 52 * 2 ^ sizeExponent m e ≤ m * 2 ^ e ∨ sizeExponent m e = -1074 := by
  rw [or_iff_not_imp_right]
  intro hnot
  have hlog : (2 : ℚ) ^ (m.log2 : ℤ) ≤ m := by
    rw [zpow_natCast]
    exact_mod_cast Nat.log2_self_le hm.ne'
  have hexponent : 52 + sizeExponent m e = m.log2 + e := by
    unfold sizeExponent at hnot ⊢
    omega
  calc (2 : ℚ) ^ 52 * 2 ^ sizeExponent m e
      = 2 ^ (52 + sizeExponent m e) := (zpow_add₀ two_ne_zero _ _).symm
    _ = 2 ^ (m.log2 : ℤ) * 2 ^ e := by rw [hexponent, zpow_add₀ two_ne_zero]
    _ ≤ m * 2 ^ e := mul_le_mul_of_nonneg_right hlog (by positivity)

/-- Shifting to the exponent that goes with the size is rounding. -/
theorem roundsTo_shift {m k : ℕ} {e : ℤ} (hm : 0 < m) (hk : e + k = sizeExponent m e) :
    RoundsTo (m * 2 ^ e) (ExtendedMantissa.mk m false false >>> k).roundedMantissa (e + k) := by
  have hpos : (0 : ℚ) < 2 ^ e := by positivity
  have habs : |(m : ℚ) * 2 ^ e| = m * 2 ^ e := abs_of_nonneg (by positivity)
  have hlt := lt_sizeExponent m e
  have hfull := sizeExponent_le hm e
  rw [← hk] at hlt hfull
  obtain ⟨hnear, heven⟩ := roundedMantissa_near m k
  generalize (ExtendedMantissa.mk m false false >>> k).roundedMantissa = n at *
  -- what the mantissas are apart, in units of the smaller exponent
  have hoff : |(m : ℚ) * 2 ^ e - (n : ℤ) * 2 ^ (e + k)| = (|(m : ℤ) - n * 2 ^ k| : ℤ) * 2 ^ e := by
    rw [zpow_add₀ two_ne_zero, zpow_natCast, Int.cast_abs, ← abs_of_pos hpos, ← abs_mul,
      abs_of_pos hpos]
    congr 1
    push_cast
    ring
  have hspace : (2 : ℚ) ^ (e + k) = ((2 ^ k : ℤ) : ℚ) * 2 ^ e := by
    rw [zpow_add₀ two_ne_zero, zpow_natCast]
    push_cast
    ring
  refine ⟨hk ▸ le_max_right _ _, habs.symm ▸ hlt, habs.symm ▸ hfull, ?_, fun htie => heven ?_⟩
  · rw [hoff, hspace, ← mul_assoc]
    exact mul_le_mul_of_nonneg_right (by exact_mod_cast hnear) hpos.le
  · rw [hoff, hspace, ← mul_assoc] at htie
    exact_mod_cast mul_right_cancel₀ hpos.ne' htie

theorem shiftToTargetExponent_eq (m : ℕ) {e : ℤ} {k : ℕ}
    (hk : k = (sizeExponent m e - e).toNat) :
    shiftToTargetExponent Format.binary64 m e .exact =
      (ExtendedMantissa.mk m false false >>> k, e + k) := by
  rw [hk]
  rfl

/-- A mantissa of 53 bits stays. -/
theorem shiftToTargetExponent_of_lt {n : ℕ} {e : ℤ} (hn : n < 2 ^ 53) (he : -1074 ≤ e) :
    shiftToTargetExponent Format.binary64 n e .exact = (ExtendedMantissa.mk n false false, e) := by
  have hlog : n.log2 ≤ 52 := by
    rcases Nat.eq_zero_or_pos n with rfl | hpos
    · decide
    · exact Nat.lt_succ_iff.1 ((Nat.log2_lt hpos.ne').2 hn)
  have hnone : 0 = (sizeExponent n e - e).toNat := by
    unfold sizeExponent
    omega
  rw [shiftToTargetExponent_eq n hnone]
  simp [HShiftRight.hShiftRight, Nat.repeat]

/-- A mantissa that has become a power of two is halved. -/
theorem shiftToTargetExponent_power {e : ℤ} (he : -1074 ≤ e) :
    shiftToTargetExponent Format.binary64 (2 ^ 53) e .exact =
      (ExtendedMantissa.mk (2 ^ 52) false false, e + 1) := by
  have hlog : (2 ^ 53 : ℕ).log2 = 53 := Nat.log2_two_pow
  have hone : 1 = (sizeExponent (2 ^ 53) e - e).toNat := by
    unfold sizeExponent
    rw [hlog]
    omega
  rw [shiftToTargetExponent_eq _ hone]
  rfl

/-- What the arithmetic comes to when it rounds, if that is not beyond the limit. -/
theorem exists_roundWithAccuracy (s : Sign) {m : ℕ} {e : ℤ} (hm : 0 < m)
    (he : e ≤ sizeExponent m e) (hlimit : m * 2 ^ e < limit) :
    ∃ n d : ℤ, RoundsTo (s.apply m * 2 ^ e) n d ∧
      Means (roundWithAccuracy Format.binary64 s m e .exact) (n * 2 ^ d) := by
  obtain ⟨k, hk⟩ : ∃ k : ℕ, e + k = sizeExponent m e := ⟨(sizeExponent m e - e).toNat, by omega⟩
  have hround := roundsTo_shift hm hk
  have habs : |(m : ℚ) * 2 ^ e| = m * 2 ^ e := abs_of_nonneg (by positivity)
  unfold roundWithAccuracy
  rw [shiftToTargetExponent_eq m (by omega : k = _)]
  dsimp only
  generalize (ExtendedMantissa.mk m false false >>> k).roundedMantissa = n at *
  generalize e + k = d at *
  obtain ⟨hroom, hroom'⟩ := hround.exponent_le (habs.symm ▸ hlimit)
  have hle := hround.mantissa_le
  have hfull := hround.le_mantissa
  have hleast := hround.least_le
  rw [Int.abs_natCast] at hle hfull hroom'
  refine ⟨s.apply n, d, hround.apply s, ?_⟩
  -- it is shifted once more, which only matters if rounding has led to the next power of two
  rcases (show n ≤ 2 ^ 53 by exact_mod_cast hle).lt_or_eq with hlt | rfl
  · simp only [shiftToTargetExponent_of_lt hlt hleast]
    split
    next hzero =>
      have hvalue : (s.apply n : ℚ) * 2 ^ d = 0 := by
        rw [hzero]
        cases s <;> simp [Sign.apply]
      rw [hvalue]
      exact .zero s
    next => exact .finite ⟨hlt, hleast, hroom, hfull.imp_left fun h => by exact_mod_cast h⟩ s _
  · have hvalue : (s.apply (2 ^ 53 : ℕ) : ℚ) * 2 ^ d = s.apply (2 ^ 52 : ℕ) * 2 ^ (d + 1) := by
      rw [zpow_add_one₀ two_ne_zero]
      cases s <;> simp only [Sign.apply] <;> push_cast <;> ring
    have hroom'' := hroom' rfl
    simp only [shiftToTargetExponent_power hleast]
    rw [dif_neg (by decide), hvalue]
    exact .finite ⟨by decide, by omega, by omega, .inl le_rfl⟩ s _

/-- Bits can be added to a mantissa at its end. -/
theorem decreaseExponent_eq (m : ℕ) (e t : ℤ) :
    ((decreaseExponent m e t).1 : ℚ) * 2 ^ (decreaseExponent m e t).2 = m * 2 ^ e := by
  unfold decreaseExponent
  dsimp only
  generalize (e - t).toNat = k
  rw [Nat.shiftLeft_eq, zpow_sub₀ two_ne_zero, zpow_natCast]
  push_cast
  field_simp

theorem log2_mul_two_pow {m : ℕ} (hm : 0 < m) (k : ℕ) : (m * 2 ^ k).log2 = m.log2 + k := by
  have hlow := Nat.log2_self_le hm.ne'
  have hhigh := Nat.lt_log2_self (n := m)
  rw [Nat.log2_eq_iff (by positivity), pow_add, Nat.add_right_comm, pow_add]
  exact ⟨Nat.mul_le_mul_right _ hlow, Nat.mul_lt_mul_of_pos_right hhigh (Nat.two_pow_pos k)⟩

/-- Rounding from any exponent. -/
theorem exists_round (s : Sign) {m : ℕ} (e : ℤ) (hm : 0 < m) (hlimit : m * 2 ^ e < limit) :
    ∃ n d : ℤ, RoundsTo (s.apply m * 2 ^ e) n d ∧
      Means (UnpackedFloat.round Format.binary64 s m e) (n * 2 ^ d) := by
  unfold UnpackedFloat.round
  rw [targetExponent_eq]
  have hvalue := decreaseExponent_eq m e (sizeExponent m e)
  obtain ⟨k, hk⟩ : ∃ k, k = (e - sizeExponent m e).toNat := ⟨_, rfl⟩
  unfold decreaseExponent at hvalue ⊢
  dsimp only at hvalue ⊢
  rw [← hk, Nat.shiftLeft_eq] at hvalue ⊢
  -- the size is the same, and so is the exponent that goes with it
  have hsize : e - k ≤ sizeExponent (m * 2 ^ k) (e - k) := by
    unfold sizeExponent at hk ⊢
    rw [log2_mul_two_pow hm]
    push_cast
    omega
  obtain ⟨n, d, hround, hmeans⟩ :=
    exists_roundWithAccuracy s (Nat.mul_pos hm (Nat.two_pow_pos k)) hsize (hvalue ▸ hlimit)
  refine ⟨n, d, ?_, hmeans⟩
  have happly : (s.apply (m * 2 ^ k : ℕ) : ℚ) * 2 ^ (e - k) = s.apply m * 2 ^ e := by
    cases s <;> simp only [Sign.apply, Int.cast_neg, Int.cast_natCast, neg_mul, hvalue]
  rwa [happly] at hround

/-- Rounding a whole number of units of any power of two. -/
theorem exists_normalize (m e : ℤ) (s : Sign) (hlimit : |(m : ℚ) * 2 ^ e| < limit) :
    ∃ n d : ℤ, RoundsTo (m * 2 ^ e) n d ∧
      Means (UnpackedFloat.normalize Format.binary64 m e s) (n * 2 ^ d) := by
  unfold UnpackedFloat.normalize
  rcases lt_trichotomy m 0 with hm | rfl | hm
  · rw [compare_lt_iff_lt.2 hm]
    obtain ⟨k, rfl⟩ : ∃ k : ℕ, m = Sign.negative.apply k :=
      ⟨m.natAbs, by show m = -(m.natAbs : ℤ); omega⟩
    have hsize : (-Sign.negative.apply k).toNat = k := by
      show (- -(k : ℤ)).toNat = k
      omega
    rw [abs_apply] at hlimit
    simp only [hsize]
    exact exists_round .negative e (Nat.cast_pos.1 (Int.neg_neg_iff_pos.1 hm)) hlimit
  · rw [compare_eq_iff_eq.2 rfl]
    refine ⟨0, -1074, ?_, ?_⟩
    · rw [Int.cast_zero, zero_mul]
      exact .zero
    · rw [Int.cast_zero, zero_mul]
      exact .zero s
  · rw [compare_gt_iff_gt.2 hm]
    obtain ⟨k, rfl⟩ : ∃ k : ℕ, m = Sign.positive.apply k :=
      ⟨m.toNat, (Int.toNat_of_nonneg hm.le).symm⟩
    have hsize : (Sign.positive.apply k).toNat = k := Int.toNat_natCast k
    rw [abs_apply] at hlimit
    simp only [hsize]
    exact exists_round .positive e (Nat.cast_pos.1 hm) hlimit

end SoftRadio.Binary64
