import SoftRadio.Proofs.Binary64.Rounding

/-!
# Sums, differences and whole parts of doubles

A sum, a difference or a product of doubles is the double nearest to that of the numbers they stand
for, unless it is beyond the limit.  Whole numbers of 53 bits can be held exactly, and so can the
greatest whole number that is not greater than a double.

* `Canonical.roundsTo`: what is a double already is rounded to itself.
* `exists_add`, `exists_sub`, `exists_mul`: what is computed is rounded once.
* `exists_value?_add`, `exists_value?_sub`: the same of the doubles themselves.
* `value?_ofNat`, `value?_floor`: whole numbers are exact.
-/

namespace SoftRadio.Binary64

open Float.Model Float.Model.UnpackedFloat

theorem apply_neg (s : Sign) (n : ℤ) : (-s).apply n = -s.apply n := by
  cases s with
  | negative => exact (neg_neg n).symm
  | positive => rfl

theorem apply_mul (s t : Sign) (m n : ℕ) : (s * t).apply (m * n : ℕ) = s.apply m * t.apply n := by
  rw [Nat.cast_mul]
  cases s <;> cases t
  · exact (neg_mul_neg _ _).symm
  · exact (neg_mul _ _).symm
  · exact (mul_neg _ _).symm
  · rfl

/-- What can be held exactly is rounded to itself. -/
theorem Canonical.roundsTo {m : ℕ} {e : ℤ} (h : Canonical m e) (s : Sign) :
    RoundsTo (s.apply m * 2 ^ e) (s.apply m) e where
  least_le := h.least_le
  lt := by
    rw [abs_apply]
    exact mul_lt_mul_of_pos_right (by exact_mod_cast h.lt) (by positivity)
  full_or_least := h.full_or_least.imp_left fun hfull => by
    rw [abs_apply]
    exact mul_le_mul_of_nonneg_right (by exact_mod_cast hfull) (by positivity)
  near := by
    rw [sub_self, abs_zero, mul_zero]
    positivity
  even htie := by
    rw [sub_self, abs_zero, mul_zero] at htie
    exact absurd htie (by positivity : (0 : ℚ) < 2 ^ e).ne

/-! ## Sums and differences -/

section

variable {u v : UnpackedFloat} {a b : ℚ}

theorem Means.neg (h : Means u a) : Means u.neg (-a) := by
  cases h with
  | zero s => exact neg_zero (G := ℚ) ▸ .zero (-s)
  | @finite m e h s hm =>
    have hvalue : -((s.apply m : ℚ) * 2 ^ e) = (-s).apply m * 2 ^ e := by
      rw [apply_neg, Int.cast_neg, neg_mul]
    exact hvalue ▸ .finite h (-s) hm

theorem Means.exists_roundsTo (h : Means u a) : ∃ n e : ℤ, RoundsTo a n e ∧ a = n * 2 ^ e := by
  cases h with
  | zero => exact ⟨0, -1074, .zero, by rw [Int.cast_zero, zero_mul]⟩
  | @finite m e h s => exact ⟨s.apply m, e, h.roundsTo s, rfl⟩

theorem decreaseExponent_of_le (s : Sign) (m : ℕ) {e t : ℤ} (h : t ≤ e) :
    (s.apply (decreaseExponent m e t).1 : ℚ) * 2 ^ t = s.apply m * 2 ^ e := by
  have hvalue := decreaseExponent_eq m e t
  have hexponent : (decreaseExponent m e t).2 = t := by
    show e - (e - t).toNat = t
    omega
  rw [hexponent] at hvalue
  cases s <;> simp only [Sign.apply, Int.cast_neg, Int.cast_natCast, neg_mul, hvalue]

theorem exists_add (hu : Means u a) (hv : Means v b) (hlimit : |a + b| < limit) :
    ∃ n e : ℤ, RoundsTo (a + b) n e ∧
      Means (UnpackedFloat.add Format.binary64 u v) (n * 2 ^ e) := by
  cases hu with
  | zero s =>
    rw [zero_add]
    obtain ⟨n, e, hround, heq⟩ := hv.exists_roundsTo
    refine ⟨n, e, hround, heq ▸ ?_⟩
    cases hv with
    | zero t => cases s <;> cases t <;> exact .zero _
    | finite h t => exact .finite h t _
  | @finite m d h s hm =>
    cases hv with
    | zero =>
      rw [add_zero]
      exact ⟨s.apply m, d, h.roundsTo s, .finite h s hm⟩
    | @finite n e h' t hn =>
      have hsum : ((s.apply (decreaseExponent m d (min d e)).1 +
          t.apply (decreaseExponent n e (min d e)).1 : ℤ) : ℚ) * 2 ^ min d e =
            s.apply m * 2 ^ d + t.apply n * 2 ^ e := by
        rw [Int.cast_add, add_mul, decreaseExponent_of_le s m (min_le_left d e),
          decreaseExponent_of_le t n (min_le_right d e)]
      rw [← hsum] at hlimit ⊢
      exact exists_normalize _ _ _ hlimit

/-- A difference is computed as the sum with what is taken away negated. -/
theorem sub_eq_add_neg_of_means (hu : Means u a) (hv : Means v b) :
    UnpackedFloat.sub Format.binary64 u v = UnpackedFloat.add Format.binary64 u v.neg := by
  cases hu with
  | zero => cases hv <;> rfl
  | finite =>
    cases hv with
    | zero => rfl
    | finite =>
      simp only [UnpackedFloat.sub, UnpackedFloat.add, UnpackedFloat.neg, apply_neg,
        Int.sub_eq_add_neg]

theorem exists_sub (hu : Means u a) (hv : Means v b) (hlimit : |a - b| < limit) :
    ∃ n e : ℤ, RoundsTo (a - b) n e ∧
      Means (UnpackedFloat.sub Format.binary64 u v) (n * 2 ^ e) := by
  rw [sub_eq_add_neg_of_means hu hv]
  rw [sub_eq_add_neg] at hlimit ⊢
  exact exists_add hu hv.neg hlimit

/-- A product is computed exactly before it is rounded, as its mantissa has bits to spare. -/
theorem exists_mul (hu : Means u a) (hv : Means v b) (hlimit : |a * b| < limit) :
    ∃ n e : ℤ, RoundsTo (a * b) n e ∧
      Means (UnpackedFloat.mul Format.binary64 u v) (n * 2 ^ e) := by
  have hnone : ((0 : ℤ) : ℚ) * 2 ^ (-1074 : ℤ) = 0 := by rw [Int.cast_zero, zero_mul]
  cases hu with
  | zero s =>
    rw [zero_mul]
    refine ⟨0, -1074, .zero, hnone ▸ ?_⟩
    cases hv <;> exact .zero _
  | @finite m d hcanonical s hm =>
    cases hv with
    | zero t =>
      rw [mul_zero]
      exact ⟨0, -1074, .zero, hnone ▸ .zero _⟩
    | @finite n e hcanonical' t hn =>
      have hpos : 0 < m * n := Nat.mul_pos hm hn
      have hvalue : (s.apply m : ℚ) * 2 ^ d * (t.apply n * 2 ^ e) =
          (s * t).apply (m * n : ℕ) * 2 ^ (d + e) := by
        rw [apply_mul, zpow_add₀ two_ne_zero]
        push_cast
        ring
      have hshift : d + e ≤ sizeExponent (m * n) (d + e) := by
        unfold sizeExponent
        rcases hcanonical.full_or_least with hfull | rfl
        · have hlog := (Nat.le_log2 hpos.ne').2 (hfull.trans (Nat.le_mul_of_pos_right m hn))
          omega
        · rcases hcanonical'.full_or_least with hfull | rfl
          · have hlog := (Nat.le_log2 hpos.ne').2 (hfull.trans (Nat.le_mul_of_pos_left n hm))
            omega
          · omega
      rw [hvalue] at hlimit ⊢
      rw [abs_apply] at hlimit
      exact exists_roundWithAccuracy (s * t) hpos hshift hlimit

end

section

variable {x y : Float} {a b : ℚ}

theorem value?_neg (hx : value? x = some a) : value? (-x) = some (-a) :=
  value?_pack (means_unpack_iff.2 hx).neg

/-- A sum is the double that is nearest to the sum of the numbers. -/
theorem exists_value?_add (hx : value? x = some a) (hy : value? y = some b)
    (hlimit : |a + b| < limit) :
    ∃ n e : ℤ, RoundsTo (a + b) n e ∧ value? (x + y) = some ((n : ℚ) * 2 ^ e) := by
  obtain ⟨n, e, hround, h⟩ := exists_add (means_unpack_iff.2 hx) (means_unpack_iff.2 hy) hlimit
  exact ⟨n, e, hround, value?_pack h⟩

/-- A difference is the double that is nearest to the difference of the numbers. -/
theorem exists_value?_sub (hx : value? x = some a) (hy : value? y = some b)
    (hlimit : |a - b| < limit) :
    ∃ n e : ℤ, RoundsTo (a - b) n e ∧ value? (x - y) = some ((n : ℚ) * 2 ^ e) := by
  obtain ⟨n, e, hround, h⟩ := exists_sub (means_unpack_iff.2 hx) (means_unpack_iff.2 hy) hlimit
  exact ⟨n, e, hround, value?_pack h⟩

end

/-! ## Whole numbers -/

theorem value?_one : value? (Float.ofBits 0x3FF0000000000000) = some 1 := by
  decide +kernel

theorem lt_limit {n : ℤ} (hn : |n| < 2 ^ 53) : |(n : ℚ)| < limit := by
  have hlimit : 2 ^ 53 < limit := by decide +kernel
  exact lt_trans (by exact_mod_cast hn) hlimit

/-- A whole number of 53 bits is rounded to itself. -/
theorem eq_of_roundsTo_intCast {m n e : ℤ} (h : RoundsTo m n e) (hm : |m| < 2 ^ 53) :
    (n : ℚ) * 2 ^ e = m := by
  rw [← mul_one (m : ℚ), ← zpow_zero (2 : ℚ)] at h
  rw [h.eq_of_grid hm (by decide), zpow_zero, mul_one]

/-- A whole number of 53 bits is a double. -/
theorem value?_ofNat {n : ℕ} (hn : n < 2 ^ 53) : value? (Float.ofNat n) = some (n : ℚ) := by
  have habs : |(n : ℤ)| < 2 ^ 53 := by
    rw [Int.abs_natCast]
    exact_mod_cast hn
  have hword : n.toUInt64.toNat = n := by
    rw [Nat.toUInt64, UInt64.toNat_ofNat']
    omega
  have hmodel : n.toUInt64.toFloat =
      .ofModel (.pack (UnpackedFloat.normalize Format.binary64 n 0 .positive)) := by
    show Float.ofModel (.pack
      (UnpackedFloat.normalize Format.binary64 (n.toUInt64.toNat : ℤ) 0 .positive)) = _
    rw [hword]
  have hfloat : value? n.toUInt64.toFloat = some (n : ℚ) := by
    obtain ⟨k, e, hround, h⟩ := exists_normalize n 0 .positive
      (by rw [zpow_zero, mul_one]; exact lt_limit habs)
    rw [zpow_zero, mul_one] at hround
    rw [eq_of_roundsTo_intCast hround habs] at h
    rw [hmodel]
    exact value?_pack h
  -- whole numbers are read as numerals are, times a power of ten
  have hnumeral : Float.ofNat n = n.toUInt64.toFloat * Float.ofBits 0x3FF0000000000000 := by
    show Float.ofScientific n false 0 = _
    unfold Float.ofScientific
    rw [dif_pos ⟨hn, by decide⟩]
    rfl
  obtain ⟨k, e, hround, h⟩ := exists_mul (means_unpack_iff.2 hfloat)
    (means_unpack_iff.2 value?_one) (by rw [mul_one]; exact lt_limit habs)
  rw [mul_one] at hround
  rw [eq_of_roundsTo_intCast (m := n) hround habs] at h
  rw [hnumeral]
  exact value?_pack h

theorem value?_whole {n : ℕ} (hn : n < 2 ^ 53) (negative : Bool) :
    value? (whole negative n) = some (if negative then -(n : ℚ) else n) := by
  cases negative with
  | false => exact value?_ofNat hn
  | true => exact value?_neg (value?_ofNat hn)

/-- What is negative goes down by one if the division leaves a rest. -/
theorem neg_natCast_ediv (m : ℕ) {d : ℕ} (hd : 0 < d) : -(m : ℤ) / d =
    if m / d * d = m then -((m / d : ℕ) : ℤ) else -((m / d + 1 : ℕ) : ℤ) := by
  have hrest : (d : ℤ) ∣ m ↔ m / d * d = m := by
    rw [Int.natCast_dvd_natCast]
    exact ⟨Nat.div_mul_cancel, fun h => Dvd.intro_left _ h⟩
  rw [Int.neg_ediv, Int.sign_natCast_of_ne_zero hd.ne', ← Int.natCast_ediv]
  simp only [hrest]
  split
  · exact sub_zero _
  · push_cast
    ring

/-- The bits below the unit are left out, and what is negative goes down for them. -/
theorem floor_value_negSucc (negative : Bool) (m k : ℕ) :
    ⌊Parts.value ⟨negative, m, .negSucc k⟩⌋ =
      if negative && (m >>> (k + 1)) <<< (k + 1) != m then -((m >>> (k + 1) + 1 : ℕ) : ℤ)
      else if negative then -((m >>> (k + 1) : ℕ) : ℤ) else (m >>> (k + 1) : ℕ) := by
  have hvalue : Parts.value ⟨negative, m, .negSucc k⟩ =
      ((if negative then -(m : ℤ) else m : ℤ) : ℚ) / (2 ^ (k + 1) : ℕ) := by
    unfold Parts.value
    dsimp only
    rw [zpow_negSucc, div_eq_mul_inv, Nat.cast_pow, Nat.cast_ofNat]
    cases negative <;> simp
  rw [hvalue, Rat.floor_intCast_div_natCast, Nat.shiftRight_eq_div_pow, Nat.shiftLeft_eq]
  cases negative with
  | false => rfl
  | true =>
    rw [if_pos rfl, neg_natCast_ediv m (Nat.two_pow_pos (k + 1))]
    by_cases hrest : m / 2 ^ (k + 1) * 2 ^ (k + 1) = m <;> simp [hrest]

/-- The whole part is exact. -/
theorem value?_floor {x : Float} {q : ℚ} (h : value? x = some q) :
    value? (floor x) = some ((⌊q⌋ : ℤ) : ℚ) := by
  cases hview : view x with
  | nan => simp [value?, hview] at h
  | infinite => simp [value?, hview] at h
  | finite p =>
    obtain ⟨negative, m, e⟩ := p
    have hm := (canonical_of_view hview).lt
    obtain rfl : Parts.value ⟨negative, m, e⟩ = q := by simpa [value?, hview] using h
    cases e with
    | ofNat k =>
      have hwhole : Parts.value ⟨negative, m, .ofNat k⟩ =
          (((if negative then -(m : ℤ) else m) * 2 ^ k : ℤ) : ℚ) := by
        unfold Parts.value
        cases negative <;> simp
      have hsame : floor x = x := by
        unfold floor
        rw [hview]
      rw [hsame, h, hwhole, Int.floor_intCast]
    | negSucc k =>
      have hfits : m >>> (k + 1) < 2 ^ 52 := by
        rw [Nat.shiftRight_succ_inside]
        exact (Nat.shiftRight_le _ _).trans_lt (by dsimp only at hm; omega)
      have hparts : floor x = if negative && (m >>> (k + 1)) <<< (k + 1) != m then
          whole true (m >>> (k + 1) + 1) else whole negative (m >>> (k + 1)) := by
        unfold floor
        rw [hview]
      rw [hparts, floor_value_negSucc]
      generalize m >>> (k + 1) = quotient at hfits ⊢
      split
      · rw [value?_whole (by omega)]
        simp
      · rw [value?_whole (by omega)]
        cases negative <;> simp

end SoftRadio.Binary64
