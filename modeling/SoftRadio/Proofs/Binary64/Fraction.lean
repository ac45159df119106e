import SoftRadio.Proofs.Binary64.Arithmetic

/-!
# The fraction of a double

What is left of a double when its whole part is taken away is rounded, as all differences are.  It
is exact for doubles that are not negative, but a tiny negative one is so close below zero that the
difference from -1 is rounded to one.

* `RoundsTo.nonneg`, `RoundsTo.le_one`: numbers from zero to one are rounded to such numbers.
* `RoundsTo.eq_one_iff`: which numbers below one are rounded to one.
* `one_sub_fract_le_iff`: which doubles have such a fraction.
* `exists_value?_fract`: the fraction of a double, as it is computed.
-/

namespace SoftRadio.Binary64

/-- Half of the spacing of the doubles below one. -/
def tiny : ℚ := 2 ^ (-54 : ℤ)

theorem two_mul_tiny : (2 : ℚ) ^ (-53 : ℤ) = 2 * tiny := by
  unfold tiny
  norm_num

theorem tiny_pos : 0 < tiny := by
  unfold tiny
  positivity

theorem tiny_lt_half : tiny < 1 / 2 := by
  unfold tiny
  norm_num

namespace RoundsTo

variable {v : ℚ} {n e : ℤ}

/-- What is not negative is not rounded to a negative number. -/
theorem nonneg (h : RoundsTo v n e) (hv : 0 ≤ v) : 0 ≤ (n : ℚ) * 2 ^ e := by
  have hpos : (0 : ℚ) < 2 ^ e := by positivity
  refine mul_nonneg ?_ hpos.le
  by_contra hneg
  have hn : (n : ℚ) + 1 ≤ 0 := by exact_mod_cast not_le.1 hneg
  have hgap := mul_le_mul_of_nonneg_right hn hpos.le
  have hnear := h.near
  rw [abs_of_nonneg (by linarith)] at hnear
  linarith

/-- Below one there are at least 53 bits after the point. -/
theorem exponent_le_of_lt_one (h : RoundsTo v n e) (hv : 0 ≤ v) (hone : v < 1) : e ≤ -53 := by
  rcases h.full_or_least with hfull | rfl
  · have hpow : (2 : ℚ) ^ (52 + e) < 2 ^ (0 : ℤ) := by
      rw [zpow_add₀ two_ne_zero, zpow_zero]
      exact hfull.trans_lt (by rwa [abs_of_nonneg hv])
    have := (zpow_lt_zpow_iff_right₀ one_lt_two).1 hpow
    omega
  · decide

/-- What is below one is not rounded beyond it. -/
theorem le_one (h : RoundsTo v n e) (hv : 0 ≤ v) (hone : v < 1) : (n : ℚ) * 2 ^ e ≤ 1 := by
  have hpos : (0 : ℚ) < 2 ^ e := by positivity
  have he := h.exponent_le_of_lt_one hv hone
  obtain ⟨k, rfl⟩ : ∃ k : ℕ, e = -k := ⟨e.natAbs, by omega⟩
  have hunit : ((2 ^ k : ℤ) : ℚ) * 2 ^ (-(k : ℤ)) = 1 := by
    push_cast
    rw [← zpow_natCast, ← zpow_add₀ two_ne_zero, add_neg_cancel, zpow_zero]
  by_contra hgreater
  have hn : (2 ^ k : ℤ) < n := by
    rw [← hunit] at hgreater
    exact_mod_cast lt_of_mul_lt_mul_right (not_le.1 hgreater) hpos.le
  have hstep : ((2 ^ k : ℤ) : ℚ) + 1 ≤ n := by exact_mod_cast hn
  have hgap := mul_le_mul_of_nonneg_right hstep hpos.le
  have hnear := h.near
  rw [abs_sub_comm, abs_of_nonneg (by linarith)] at hnear
  linarith

/-- What is below one is rounded to one if it is no farther from it than half of the spacing of the
doubles there: halfway the even mantissa is taken. -/
theorem eq_one_iff (h : RoundsTo v n e) (hv : 0 ≤ v) (hone : v < 1) :
    (n : ℚ) * 2 ^ e = 1 ↔ 1 - v ≤ tiny := by
  have he := h.exponent_le_of_lt_one hv hone
  have hspacing := two_mul_tiny
  have hunit : (2 ^ 53 : ℚ) * 2 ^ (-53 : ℤ) = 1 := by norm_num
  constructor
  · intro heq
    have hnear := h.near
    rw [heq, abs_sub_comm, abs_of_pos (by linarith)] at hnear
    have hspace : (2 : ℚ) ^ e ≤ 2 ^ (-53 : ℤ) := zpow_le_zpow_right₀ one_le_two he
    linarith
  · intro hclose
    have hlow : -54 < e := by
      have hsize : (2 : ℚ) ^ (-1 : ℤ) < 2 ^ (53 + e) := by
        have hlt := h.lt
        rw [abs_of_nonneg hv] at hlt
        rw [zpow_add₀ two_ne_zero]
        refine lt_of_le_of_lt ?_ hlt
        rw [zpow_neg_one]
        linarith [tiny_lt_half]
      have := (zpow_lt_zpow_iff_right₀ one_lt_two).1 hsize
      omega
    obtain rfl : e = -53 := by omega
    have hpos : (0 : ℚ) < 2 ^ (-53 : ℤ) := by positivity
    have hle := h.le_one hv hone
    by_contra hne
    -- the next lower mantissa is as near at best, and is odd
    have hn : n ≤ 2 ^ 53 - 1 := by
      rw [← hunit] at hle hne
      have hle' : n ≤ 2 ^ 53 := by exact_mod_cast le_of_mul_le_mul_right hle hpos
      have hne' : n ≠ 2 ^ 53 := by
        rintro rfl
        exact hne (by push_cast; rfl)
      omega
    have hgap : (n : ℚ) * 2 ^ (-53 : ℤ) ≤ 1 - 2 ^ (-53 : ℤ) := by
      have hcast : (n : ℚ) ≤ 2 ^ 53 - 1 := by exact_mod_cast hn
      have := mul_le_mul_of_nonneg_right hcast hpos.le
      linarith
    have hoff : |v - n * 2 ^ (-53 : ℤ)| = v - n * 2 ^ (-53 : ℤ) := abs_of_nonneg (by linarith)
    have hnear := h.near
    have htie : 2 * |v - n * 2 ^ (-53 : ℤ)| = 2 ^ (-53 : ℤ) :=
      le_antisymm hnear (by linarith)
    have hodd : n = 2 ^ 53 - 1 := by
      have hsame : (n : ℚ) * 2 ^ (-53 : ℤ) = (2 ^ 53 - 1) * 2 ^ (-53 : ℤ) := by linarith
      exact_mod_cast mul_right_cancel₀ hpos.ne' hsame
    exact absurd (h.even htie) (by rw [hodd]; decide)

end RoundsTo

theorem fract_of_neg {q : ℚ} (hlow : -1 ≤ q) (hneg : q < 0) : Int.fract q = q + 1 := by
  have hfloor : ⌊q⌋ = -1 := Int.floor_eq_iff.2 ⟨by push_cast; exact hlow, by push_cast; linarith⟩
  rw [Int.fract, hfloor]
  push_cast
  ring

/-- The fraction of a multiple of the spacing below one ends below it. -/
theorem spacing_le_one_sub_fract (k : ℤ) :
    (2 : ℚ) ^ (-53 : ℤ) ≤ 1 - Int.fract ((k : ℚ) * 2 ^ (-53 : ℤ)) := by
  have hpos : (0 : ℚ) < 2 ^ (-53 : ℤ) := by positivity
  have hunit : (2 ^ 53 : ℚ) * 2 ^ (-53 : ℤ) = 1 := by norm_num
  have hlt := Int.fract_lt_one ((k : ℚ) * 2 ^ (-53 : ℤ))
  have hgrid : 1 - Int.fract ((k : ℚ) * 2 ^ (-53 : ℤ)) =
      ((2 ^ 53 * (1 + ⌊(k : ℚ) * 2 ^ (-53 : ℤ)⌋) - k : ℤ) : ℚ) * 2 ^ (-53 : ℤ) := by
    rw [Int.fract]
    generalize ⌊(k : ℚ) * 2 ^ (-53 : ℤ)⌋ = whole
    calc 1 - ((k : ℚ) * 2 ^ (-53 : ℤ) - whole)
        = (1 + whole) * (2 ^ 53 * 2 ^ (-53 : ℤ)) - k * 2 ^ (-53 : ℤ) := by
          rw [hunit]
          ring
      _ = ((2 ^ 53 * (1 + whole) - k : ℤ) : ℚ) * 2 ^ (-53 : ℤ) := by
          push_cast
          ring
  generalize 2 ^ 53 * (1 + ⌊(k : ℚ) * 2 ^ (-53 : ℤ)⌋) - k = units at hgrid
  have hunits : 0 < units := by
    have hprod : 0 < (units : ℚ) * 2 ^ (-53 : ℤ) := by linarith
    exact_mod_cast pos_of_mul_pos_left hprod hpos.le
  have hone : (1 : ℚ) ≤ units := by exact_mod_cast hunits
  rw [hgrid]
  exact le_mul_of_one_le_left hpos.le hone

/-- A fraction is that close to one for the tiny negative doubles only: doubles that are not tiny
are multiples of the spacing below one. -/
theorem one_sub_fract_le_iff {x : Float} {q : ℚ} (h : value? x = some q) :
    1 - Int.fract q ≤ tiny ↔ -tiny ≤ q ∧ q < 0 := by
  have hhalf := tiny_lt_half
  constructor
  · intro hclose
    obtain ⟨s, m, e, hcanonical, rfl⟩ := exists_canonical h
    rcases le_or_gt (-53) e with he | he
    · obtain ⟨k, rfl⟩ : ∃ k : ℕ, e = k + -53 := ⟨(e + 53).toNat, by omega⟩
      have hgrid : (s.apply m : ℚ) * 2 ^ (k + -53 : ℤ) =
          ((s.apply m * 2 ^ k : ℤ) : ℚ) * 2 ^ (-53 : ℤ) := by
        rw [zpow_add₀ two_ne_zero, zpow_natCast, ← mul_assoc]
        push_cast
        rfl
      have hspace := spacing_le_one_sub_fract (s.apply m * 2 ^ k)
      rw [← hgrid] at hspace
      linarith [two_mul_tiny, tiny_pos]
    · have hsize : |(s.apply m : ℚ) * 2 ^ e| < 1 / 2 := by
        rw [abs_apply]
        calc (m : ℚ) * 2 ^ e < 2 ^ 53 * 2 ^ e :=
              mul_lt_mul_of_pos_right (by exact_mod_cast hcanonical.lt) (by positivity)
          _ ≤ 2 ^ 53 * 2 ^ (-54 : ℤ) :=
              mul_le_mul_of_nonneg_left (zpow_le_zpow_right₀ one_le_two (by omega)) (by positivity)
          _ = 1 / 2 := by norm_num
      generalize (s.apply m : ℚ) * 2 ^ e = q at *
      obtain ⟨hlow, hhigh⟩ := abs_lt.1 hsize
      rcases lt_or_ge q 0 with hneg | hnonneg
      · rw [fract_of_neg (by linarith) hneg] at hclose
        exact ⟨by linarith, hneg⟩
      · rw [Int.fract_eq_self.2 ⟨hnonneg, by linarith⟩] at hclose
        linarith
  · rintro ⟨hlow, hneg⟩
    rw [fract_of_neg (by linarith) hneg]
    linarith

/-- The fraction of a finite double is computed as a number from zero to one, and as one for the
tiny negative doubles only. -/
theorem exists_value?_fract {x : Float} {q : ℚ} (h : value? x = some q) :
    ∃ f, value? (x - floor x) = some f ∧ 0 ≤ f ∧ f ≤ 1 ∧
      (f = 1 ↔ -tiny ≤ q ∧ q < 0) := by
  have hnonneg := Int.fract_nonneg q
  have hlt := Int.fract_lt_one q
  have hlimit : |q - (⌊q⌋ : ℤ)| < limit := by
    rw [← Int.fract, abs_of_nonneg hnonneg]
    exact hlt.trans (by decide +kernel)
  obtain ⟨n, e, hround, hvalue⟩ := exists_value?_sub h (value?_floor h) hlimit
  rw [← Int.fract] at hround
  exact ⟨_, hvalue, hround.nonneg hnonneg, hround.le_one hnonneg hlt,
    (hround.eq_one_iff hnonneg hlt).trans (one_sub_fract_le_iff h)⟩

/-- The greatest double. -/
theorem abs_value_le {x : Float} {q : ℚ} (h : value? x = some q) :
    |q| ≤ (2 ^ 53 - 1) * 2 ^ (971 : ℤ) := by
  obtain ⟨s, m, e, hcanonical, rfl⟩ := exists_canonical h
  have hm : (m : ℚ) ≤ 2 ^ 53 - 1 := by
    have hlt : (m : ℚ) + 1 ≤ 2 ^ 53 := by exact_mod_cast hcanonical.lt
    linarith
  rw [abs_apply]
  calc (m : ℚ) * 2 ^ e ≤ (2 ^ 53 - 1) * 2 ^ e := mul_le_mul_of_nonneg_right hm (by positivity)
    _ ≤ (2 ^ 53 - 1) * 2 ^ (971 : ℤ) := mul_le_mul_of_nonneg_left
        (zpow_le_zpow_right₀ one_le_two hcanonical.le_greatest) (by norm_num)

end SoftRadio.Binary64
