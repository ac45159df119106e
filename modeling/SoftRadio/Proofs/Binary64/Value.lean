import Mathlib
import SoftRadio.Scalar

/-!
# What a double stands for

A finite double is a whole number times a power of two.  The arithmetic of doubles takes their bits
apart into a sign, a mantissa and an exponent and puts them together again; here is shown that
nothing is lost on either way, and that the order of doubles is the order of what they stand for.

* `value?`: the number that a double stands for, if it is finite.
* `Canonical`: the mantissas and exponents of finite doubles.
* `Means`: the number that an unpacked double stands for; `means_unpack_iff`: it is the same one.
* `value?_pack`: a canonical double is packed without loss.
* `lt_iff`, `le_iff`: the order.
-/

namespace SoftRadio.Binary64

open Float.Model Float.Model.UnpackedFloat

/-- The number that the parts stand for. -/
def Parts.value (p : Parts) : ℚ :=
  (if p.negative then -(p.mantissa : ℚ) else p.mantissa) * 2 ^ p.exponent

/-- The number that a double stands for, if it is finite. -/
def value? (x : Float) : Option ℚ :=
  match view x with
  | .finite p => some p.value
  | _ => none

/-- The mantissa and the exponent of a finite double: the mantissa has 53 bits, of which the first
is set unless the exponent is the least. -/
structure Canonical (m : ℕ) (e : ℤ) : Prop where
  lt : m < 2 ^ 53
  least_le : -1074 ≤ e
  le_greatest : e ≤ 971
  full_or_least : 2 ^ 52 ≤ m ∨ e = -1074

/-- An unpacked double, if it is finite and in the form that can be packed, and what it stands
for. -/
inductive Means : UnpackedFloat → ℚ → Prop
  | zero (s : Sign) : Means (.zero s) 0
  | finite {m : ℕ} {e : ℤ} (h : Canonical m e) (s : Sign) (hm : 0 < m) :
      Means (.finite s m e hm) (s.apply m * 2 ^ e)

def sign (negative : Bool) : Sign := if negative then .negative else .positive

/-- The unpacked form that goes with a view of the bits. -/
def View.unpacked : View → UnpackedFloat
  | .nan => .notANumber
  | .infinite negative => .infinity (sign negative)
  | .finite ⟨negative, m, e⟩ =>
    if h : m = 0 then .zero (sign negative)
    else .finite (sign negative) m e (Nat.pos_of_ne_zero h)

theorem unpacked_zero (negative : Bool) (e : ℤ) :
    View.unpacked (.finite ⟨negative, 0, e⟩) = .zero (sign negative) :=
  rfl

theorem unpacked_of_pos (negative : Bool) {m : ℕ} (e : ℤ) (hm : 0 < m) :
    View.unpacked (.finite ⟨negative, m, e⟩) = .finite (sign negative) m e hm :=
  dif_neg hm.ne'

/-! ## Taking bits apart -/

section

variable (b : BitVec Format.binary64.numBits)

theorem toNat_unpackMantissa : (unpackMantissa b).toNat = b.toNat % leadingBit := by
  simp [unpackMantissa, leadingBit]

theorem toNat_unpackExponent : (unpackExponent b).toNat = (b.toNat >>> 52) % 2048 := by
  simp [unpackExponent]

theorem unpackMantissa_eq_zero_iff : unpackMantissa b = 0#_ ↔ b.toNat % leadingBit = 0 := by
  rw [← BitVec.toNat_inj, toNat_unpackMantissa]
  rfl

theorem unpackExponent_eq_zero_iff : unpackExponent b = 0#_ ↔ (b.toNat >>> 52) % 2048 = 0 := by
  rw [← BitVec.toNat_inj, toNat_unpackExponent]
  rfl

theorem unpackExponent_eq_neg_one_iff :
    unpackExponent b = -1#_ ↔ (b.toNat >>> 52) % 2048 = 2047 := by
  rw [← BitVec.toNat_inj, toNat_unpackExponent]
  rfl

theorem ofBitVec_unpackSign : Sign.ofBitVec (unpackSign b) = sign (b.toNat >>> 63 == 1) := by
  have hb : b.toNat < 2 ^ 64 := b.isLt
  have hbit : (unpackSign b).toNat = b.toNat >>> 63 := by
    simp [unpackSign]
    omega
  have hsign : unpackSign b = 0#1 ↔ ¬b.toNat >>> 63 = 1 := by
    rw [← BitVec.toNat_inj, hbit, BitVec.toNat_zero]
    omega
  unfold Sign.ofBitVec sign
  by_cases h : b.toNat >>> 63 = 1
  · rw [if_neg (mt hsign.1 (not_not.2 h)), if_pos (beq_iff_eq.2 h)]
  · rw [if_pos (hsign.2 h), if_neg (mt beq_iff_eq.1 h)]

end

/-- With a leading bit the mantissa is complete. -/
theorem toNat_one_append (b : BitVec 52) : (1#1 ++ b).toNat = b.toNat + leadingBit := by
  rw [BitVec.toNat_append, ← Nat.shiftLeft_add_eq_or_of_lt b.isLt, Nat.add_comm]
  rfl

/-- The arithmetic takes the bits apart as the view of them does. -/
theorem unpack_toModel (x : Float) : x.toModel.unpack = (view x).unpacked := by
  have hbits : x.toBits.toNat = x.toModel.toBits.toBitVec.toNat := rfl
  unfold Float.Model.unpack UnpackedFloat.unpack view
  rw [hbits]
  generalize x.toModel.toBits.toBitVec = b
  dsimp only
  by_cases htop : (b.toNat >>> 52) % 2048 = 2047
  · rw [if_pos ((unpackExponent_eq_neg_one_iff b).2 htop), if_pos htop]
    by_cases hzero : b.toNat % leadingBit = 0
    · rw [if_pos ((unpackMantissa_eq_zero_iff b).2 hzero), if_pos hzero, ofBitVec_unpackSign]
      rfl
    · rw [if_neg (mt (unpackMantissa_eq_zero_iff b).1 hzero), if_neg hzero]
      rfl
  rw [if_neg (mt (unpackExponent_eq_neg_one_iff b).1 htop), if_neg htop]
  by_cases hlow : (b.toNat >>> 52) % 2048 = 0
  · rw [if_pos ((unpackExponent_eq_zero_iff b).2 hlow), if_pos hlow]
    by_cases hzero : b.toNat % leadingBit = 0
    · rw [dif_pos ((unpackMantissa_eq_zero_iff b).2 hzero), ofBitVec_unpackSign, hzero,
        unpacked_zero]
    · rw [dif_neg (mt (unpackMantissa_eq_zero_iff b).1 hzero),
        unpacked_of_pos _ _ (Nat.pos_of_ne_zero hzero)]
      simp only [ofBitVec_unpackSign, toNat_unpackMantissa, toNat_unpackExponent, hlow]
      rfl
  · rw [if_neg (mt (unpackExponent_eq_zero_iff b).1 hlow), if_neg hlow,
      unpacked_of_pos _ _ (Nat.add_pos_right _ (by decide : 0 < leadingBit))]
    simp only [ofBitVec_unpackSign, toNat_one_append, toNat_unpackMantissa, toNat_unpackExponent]
    rfl

theorem canonical_of_view {x : Float} {p : Parts} (h : view x = .finite p) :
    Canonical p.mantissa p.exponent := by
  unfold view at h
  dsimp only at h
  have hfraction : x.toBits.toNat % leadingBit < 2 ^ 52 := Nat.mod_lt _ (by decide)
  have hfield : (x.toBits.toNat >>> 52) % 2048 < 2048 := Nat.mod_lt _ (by decide)
  generalize x.toBits.toNat % leadingBit = fraction at h hfraction
  generalize (x.toBits.toNat >>> 52) % 2048 = field at h hfield
  unfold leadingBit at h
  split at h
  · split at h <;> cases h
  · split at h
    · cases h
      show Canonical fraction (-1074)
      exact ⟨by omega, le_rfl, by decide, .inr rfl⟩
    · cases h
      show Canonical (fraction + 4503599627370496) ((field : ℤ) - 1075)
      exact ⟨by omega, by omega, by omega, .inl (by omega)⟩

/-! ## What is meant -/

theorem value_eq_apply (negative : Bool) (m : ℕ) (e : ℤ) :
    Parts.value ⟨negative, m, e⟩ = (sign negative).apply m * 2 ^ e := by
  unfold Parts.value sign Sign.apply
  cases negative <;> simp

theorem abs_apply (s : Sign) (m : ℕ) (e : ℤ) : |(s.apply m : ℚ) * 2 ^ e| = m * 2 ^ e := by
  have hsize : |(m : ℚ) * 2 ^ e| = m * 2 ^ e := abs_of_nonneg (by positivity)
  cases s with
  | negative =>
    simp only [Sign.apply, Int.cast_neg, Int.cast_natCast, neg_mul, abs_neg]
    exact hsize
  | positive => exact hsize

/-- A finite double is a canonical one. -/
theorem exists_canonical {x : Float} {q : ℚ} (h : value? x = some q) :
    ∃ (s : Sign) (m : ℕ) (e : ℤ), Canonical m e ∧ q = s.apply m * 2 ^ e := by
  unfold value? at h
  cases hview : view x with
  | nan => simp [hview] at h
  | infinite => simp [hview] at h
  | finite p =>
    obtain rfl : p.value = q := by simpa [hview] using h
    exact ⟨sign p.negative, p.mantissa, p.exponent, canonical_of_view hview, value_eq_apply _ _ _⟩

/-- What a double stands for can be read off its unpacked form. -/
theorem means_unpack_iff {x : Float} {q : ℚ} : Means x.toModel.unpack q ↔ value? x = some q := by
  rw [unpack_toModel]
  unfold value?
  cases h : view x with
  | nan => exact iff_of_false nofun nofun
  | infinite => exact iff_of_false nofun nofun
  | finite p =>
    obtain ⟨negative, m, e⟩ := p
    have hcanonical := canonical_of_view h
    rw [Option.some.injEq, value_eq_apply]
    rcases Nat.eq_zero_or_pos m with rfl | hm
    · have hzero : ((sign negative).apply (0 : ℕ) : ℚ) * 2 ^ e = 0 := by
        cases negative <;> simp [sign, Sign.apply]
      rw [unpacked_zero, hzero]
      constructor
      · rintro ⟨⟩
        rfl
      · rintro rfl
        exact .zero _
    · rw [unpacked_of_pos negative e hm]
      constructor
      · rintro ⟨⟩
        rfl
      · rintro rfl
        exact .finite hcanonical _ hm

theorem isFinite_iff {x : Float} : x.isFinite ↔ ∃ q, value? x = some q := by
  have hmodel : x.isFinite = x.toModel.unpack.isFinite := rfl
  rw [hmodel, unpack_toModel]
  unfold value?
  cases view x with
  | nan => exact iff_of_false nofun nofun
  | infinite => exact iff_of_false nofun nofun
  | finite p =>
    refine iff_of_true ?_ ⟨p.value, rfl⟩
    dsimp only [View.unpacked]
    split <;> rfl

/-! ## Putting bits together -/

section

variable (s : Sign) {m : ℕ} (hm : 0 < m)

/-- Packed bits of a number with a leading bit. -/
theorem unpack_full {field : ℕ} (hlow : 0 < field) (hhigh : field < 2047) (hfull : 2 ^ 52 ≤ m)
    (hlt : m < 2 ^ 53) : UnpackedFloat.unpack Format.binary64
      (packComponents Format.binary64 s (BitVec.ofNat 11 field) (BitVec.ofNat 52 m)) =
      .finite s m (field - 1075) hm := by
  have hfield : (BitVec.ofNat 11 field).toNat = field := by
    rw [BitVec.toNat_ofNat]
    omega
  have hfinite : BitVec.ofNat 11 field ≠ -1#11 := by
    rw [ne_eq, ← BitVec.toNat_inj, hfield]
    exact hhigh.ne
  have hnormal : BitVec.ofNat 11 field ≠ 0#11 := by
    rw [ne_eq, ← BitVec.toNat_inj, hfield]
    exact hlow.ne'
  have hmantissa : (1#1 ++ BitVec.ofNat 52 m).toNat = m := by
    rw [toNat_one_append, BitVec.toNat_ofNat, leadingBit]
    omega
  unfold UnpackedFloat.unpack
  simp only [unpackExponent_packComponents, unpackMantissa_packComponents,
    unpackSign_packComponents, Sign.ofBitVec_toBitVec, if_neg hfinite, if_neg hnormal,
    UnpackedFloat.finite.injEq, true_and]
  refine ⟨hmantissa, ?_⟩
  rw [hfield]
  rfl

/-- Packed bits of a number that is too small for a leading bit. -/
theorem unpack_tiny (hlt : m < 2 ^ 52) : UnpackedFloat.unpack Format.binary64
      (packComponents Format.binary64 s 0#11 (BitVec.ofNat 52 m)) = .finite s m (-1074) hm := by
  have hmantissa : (BitVec.ofNat 52 m).toNat = m := by
    rw [BitVec.toNat_ofNat]
    omega
  have hsome : BitVec.ofNat 52 m ≠ 0#52 := by
    rw [ne_eq, ← BitVec.toNat_inj, hmantissa]
    exact hm.ne'
  have hfinite : 0#11 ≠ -1#11 := by decide
  unfold UnpackedFloat.unpack
  simp only [unpackExponent_packComponents, unpackMantissa_packComponents,
    unpackSign_packComponents, Sign.ofBitVec_toBitVec, if_neg hfinite, if_true, dif_neg hsome,
    UnpackedFloat.finite.injEq, true_and]
  exact ⟨hmantissa, rfl⟩

end

/-- Packing loses nothing of a canonical double. -/
theorem unpack_pack {u : UnpackedFloat} {q : ℚ} (h : Means u q) :
    UnpackedFloat.unpack Format.binary64 (UnpackedFloat.pack Format.binary64 u) = u := by
  cases h with
  | zero s => cases s <;> rfl
  | @finite m e hcanonical s hm =>
    obtain ⟨hlt, hleast, hgreatest, hfull⟩ := hcanonical
    obtain ⟨field, hfield⟩ : ∃ field : ℕ, (field : ℤ) = e + 1075 :=
      ⟨_, Int.toNat_of_nonneg (by omega)⟩
    have hexponent : (e + Format.binary64.exponentBias +
        Format.binary64.mantissaBitsWithoutImplicit).toNat = field := by
      show (e + (1023 : ℕ) + (52 : ℕ)).toNat = field
      omega
    have hbits : Format.binary64.mantissaBits = 53 := rfl
    have hroom : ¬2 ^ 11 ≤ field + 1 := by omega
    have hlog : m.log2 + 1 = 53 ↔ 2 ^ 52 ≤ m := by
      rw [← Nat.le_log2 hm.ne']
      have := (Nat.log2_lt hm.ne').2 hlt
      omega
    unfold UnpackedFloat.pack
    dsimp only
    rw [hexponent, hbits, if_neg hroom]
    by_cases hleading : 2 ^ 52 ≤ m
    · rw [if_pos (hlog.2 hleading), unpack_full s hm (by omega) (by omega) hleading hlt]
      congr 1
      omega
    · rw [if_neg (mt hlog.1 hleading), unpack_tiny s hm (not_le.1 hleading),
        hfull.resolve_left hleading]

/-- A canonical double that is put together stands for what it stood for. -/
theorem value?_pack {u : UnpackedFloat} {q : ℚ} (h : Means u q) :
    value? (.ofModel (.pack u)) = some q := by
  rw [← means_unpack_iff]
  show Means (UnpackedFloat.unpack Format.binary64 (UnpackedFloat.pack Format.binary64 u)) q
  rwa [unpack_pack h]

/-! ## The order -/

/-- A size is less than any full mantissa with a greater exponent. -/
theorem Canonical.lt_full {m : ℕ} {d e : ℤ} (hm : Canonical m d) (h : d < e) :
    (m : ℚ) * 2 ^ d < 2 ^ 52 * 2 ^ e := by
  calc (m : ℚ) * 2 ^ d < 2 ^ 53 * 2 ^ d :=
        mul_lt_mul_of_pos_right (by exact_mod_cast hm.lt) (by positivity)
    _ = 2 ^ 52 * 2 ^ (d + 1) := by
        rw [zpow_add_one₀ two_ne_zero]
        ring
    _ ≤ 2 ^ 52 * 2 ^ e :=
        mul_le_mul_of_nonneg_left (zpow_le_zpow_right₀ one_le_two h) (by positivity)

/-- Of two canonical sizes the one with the greater exponent is the greater. -/
theorem Canonical.lt_of_exponent_lt {m n : ℕ} {d e : ℤ} (hm : Canonical m d) (hn : Canonical n e)
    (h : d < e) : (m : ℚ) * 2 ^ d < n * 2 ^ e := by
  have hfull : 2 ^ 52 ≤ n := hn.full_or_least.resolve_right (by have := hm.least_le; omega)
  exact (hm.lt_full h).trans_le
    (mul_le_mul_of_nonneg_right (by exact_mod_cast hfull) (by positivity))

theorem Canonical.compare_eq {m n : ℕ} {d e : ℤ} (hm : Canonical m d) (hn : Canonical n e) :
    (compare d e).then (compare m n) = compare ((m : ℚ) * 2 ^ d) (n * 2 ^ e) := by
  rcases lt_trichotomy d e with h | rfl | h
  · rw [compare_lt_iff_lt.2 h, compare_lt_iff_lt.2 (hm.lt_of_exponent_lt hn h)]
    rfl
  · have hpos : (0 : ℚ) < 2 ^ d := by positivity
    rw [compare_eq_iff_eq.2 rfl, Ordering.eq_then]
    rcases lt_trichotomy m n with h | rfl | h
    · rw [compare_lt_iff_lt.2 h,
        compare_lt_iff_lt.2 (mul_lt_mul_of_pos_right (by exact_mod_cast h) hpos)]
    · rw [compare_eq_iff_eq.2 rfl, compare_eq_iff_eq.2 rfl]
    · rw [compare_gt_iff_gt.2 h,
        compare_gt_iff_gt.2 (mul_lt_mul_of_pos_right (by exact_mod_cast h) hpos)]
  · rw [compare_gt_iff_gt.2 h, compare_gt_iff_gt.2 (hn.lt_of_exponent_lt hm h)]
    rfl

theorem apply_positive_pos {m : ℕ} (hm : 0 < m) (e : ℤ) :
    0 < (Sign.positive.apply m : ℚ) * 2 ^ e := by
  show 0 < ((m : ℤ) : ℚ) * 2 ^ e
  have hpos : (0 : ℚ) < (m : ℤ) := by exact_mod_cast hm
  positivity

theorem apply_negative_neg {m : ℕ} (hm : 0 < m) (e : ℤ) :
    (Sign.negative.apply m : ℚ) * 2 ^ e < 0 := by
  have hflip : (Sign.negative.apply m : ℚ) * 2 ^ e = -((Sign.positive.apply m : ℚ) * 2 ^ e) := by
    simp [Sign.apply]
  rw [hflip]
  exact neg_neg_of_pos (apply_positive_pos hm e)

theorem compare_neg (a b : ℚ) : compare (-a) (-b) = (compare a b).swap := by
  rcases lt_trichotomy a b with h | rfl | h
  · rw [compare_lt_iff_lt.2 h, compare_gt_iff_gt.2 (neg_lt_neg h)]
    rfl
  · rw [compare_eq_iff_eq.2 rfl, compare_eq_iff_eq.2 rfl]
    rfl
  · rw [compare_gt_iff_gt.2 h, compare_lt_iff_lt.2 (neg_lt_neg h)]
    rfl

/-- Unpacked doubles are in the order of what they stand for. -/
theorem Means.compare_eq {u v : UnpackedFloat} {a b : ℚ} (hu : Means u a) (hv : Means v b) :
    u.compare v = some (compare a b) := by
  cases hu with
  | zero =>
    cases hv with
    | zero => rfl
    | finite _ s hm =>
      cases s with
      | negative =>
        rw [compare_gt_iff_gt.2 (apply_negative_neg hm _)]
        rfl
      | positive =>
        rw [compare_lt_iff_lt.2 (apply_positive_pos hm _)]
        rfl
  | finite hcanonical s hm =>
    cases hv with
    | zero =>
      cases s with
      | negative =>
        rw [compare_lt_iff_lt.2 (apply_negative_neg hm _)]
        rfl
      | positive =>
        rw [compare_gt_iff_gt.2 (apply_positive_pos hm _)]
        rfl
    | finite hcanonical' t hn =>
      cases s with
      | negative =>
        cases t with
        | negative =>
          simp only [Sign.apply, Int.cast_neg, Int.cast_natCast, neg_mul, compare_neg]
          rw [← hcanonical.compare_eq hcanonical']
          rfl
        | positive =>
          rw [compare_lt_iff_lt.2 ((apply_negative_neg hm _).trans (apply_positive_pos hn _))]
          rfl
      | positive =>
        cases t with
        | negative =>
          rw [compare_gt_iff_gt.2 ((apply_negative_neg hn _).trans (apply_positive_pos hm _))]
          rfl
        | positive => exact congrArg some (hcanonical.compare_eq hcanonical')

section

variable {x y : Float} {a b : ℚ}

theorem compare_unpack (hx : value? x = some a) (hy : value? y = some b) :
    x.toModel.unpack.compare y.toModel.unpack = some (compare a b) :=
  (means_unpack_iff.2 hx).compare_eq (means_unpack_iff.2 hy)

theorem lt_iff (hx : value? x = some a) (hy : value? y = some b) : Scalar.lt x y ↔ a < b := by
  have hmodel : Scalar.lt x y = (x.toModel.unpack.compare y.toModel.unpack == some .lt) := by
    show decide (decide _ = true) = _
    rw [Bool.decide_eq_true]
    exact Bool.decide_eq_true
  rw [hmodel, compare_unpack hx hy, beq_iff_eq, Option.some.injEq, compare_lt_iff_lt]

theorem le_iff (hx : value? x = some a) (hy : value? y = some b) : Scalar.le x y ↔ a ≤ b := by
  have hmodel : Scalar.le x y = (x.toModel.unpack.compare y.toModel.unpack).any (·.isLE) := by
    show decide (decide _ = true) = _
    rw [Bool.decide_eq_true]
    exact Bool.decide_eq_true
  rw [hmodel, compare_unpack hx hy, Option.any_some, ← compare_le_iff_le, Ordering.isLE_iff_ne_gt]

theorem eq_iff (hx : value? x = some a) (hy : value? y = some b) : Scalar.eq x y ↔ a = b := by
  unfold Scalar.eq
  rw [Bool.and_eq_true, le_iff hx hy, le_iff hy hx, le_antisymm_iff]

end

end SoftRadio.Binary64
