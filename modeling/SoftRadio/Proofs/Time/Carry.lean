import SoftRadio.Proofs.Binary64.Fraction
import SoftRadio.Proofs.WholeSeconds

/-!
# Points in time with a fraction in double precision

Whole seconds are carried out of a fraction, so that it is meant to be less than one.  In double
precision it is, but for the tiny negative fractions: of these a whole second is taken back, and
what is left of it is rounded to the whole second again.  Such a point compares as earlier than the
second that it is equal to.

* `Built`: the points that are made out of finite numbers; `Stands`: what the fraction of a point
  stands for.
* `stands_of_make`, `exists_sum_of_addSecs`: fractions are from zero to one.
* `compare?_eq`: points compare by their seconds, then by their fractions; `compare_then_iff`: when
  that is the order of the instants.
* `fraction_account`: all of it together.
-/

namespace SoftRadio.TimeSpec

open Binary64

/-- The fraction of a point in time stands for a number from zero to one. -/
structure Stands (t : TimeSpec Float) (f : ℚ) : Prop where
  value : value? t.frac = some f
  nonneg : 0 ≤ f
  le_one : f ≤ 1

/-- The points in time that are made out of finite numbers. -/
inductive Built : TimeSpec Float → Prop
  | zero : Built zero
  | make {full : ℤ} {frac : Float} {t : TimeSpec Float} (hfinite : frac.isFinite)
      (h : make full frac = .ok t) : Built t
  | ofSecs {secs : Float} {t : TimeSpec Float} (hfinite : secs.isFinite)
      (h : ofSecs secs = .ok t) : Built t
  | addSecs {s t : TimeSpec Float} {secs : Float} (hs : Built s) (hfinite : secs.isFinite)
      (h : s.addSecs secs = .ok t) : Built t

section

variable {s t a b : TimeSpec Float} {full : ℤ} {frac secs : Float} {f g q : ℚ}

/-- The fraction that is kept of a finite one is less than one unless that is tiny and negative. -/
theorem stands_of_make (hfrac : value? frac = some q) (h : make full frac = .ok t) :
    ∃ f, Stands t f ∧ (f < 1 ↔ ¬(-tiny ≤ q ∧ q < 0)) := by
  obtain ⟨f, hvalue, hnonneg, hle, hone⟩ := exists_value?_fract hfrac
  rw [make_eq] at h
  split at h
  · cases h
    exact ⟨f, ⟨hvalue, hnonneg, hle⟩, by rw [← hone, hle.lt_iff_ne]⟩
  · cases h

/-- A finite number of seconds can be added to a fraction, and the sum is finite again. -/
theorem exists_sum (hs : Stands s f) (hsecs : value? secs = some q) :
    ∃ n e : ℤ, RoundsTo (f + q) n e ∧ value? (s.frac + secs) = some ((n : ℚ) * 2 ^ e) := by
  refine exists_value?_add hs.value hsecs ?_
  have hroom : 1 + (2 ^ 53 - 1) * 2 ^ (971 : ℤ) < limit := by decide +kernel
  have hf : |f| ≤ 1 := abs_le.2 ⟨by linarith [hs.nonneg], hs.le_one⟩
  linarith [abs_add_le f q, abs_value_le hsecs]

theorem exists_sum_of_addSecs (hs : Stands s f) (hsecs : value? secs = some q)
    (h : s.addSecs secs = .ok t) :
    ∃ sum g, value? (s.frac + secs) = some sum ∧ Stands t g ∧
      (g < 1 ↔ ¬(-tiny ≤ sum ∧ sum < 0)) := by
  obtain ⟨n, e, -, hsum⟩ := exists_sum hs hsecs
  obtain ⟨g, hg, hone⟩ := stands_of_make hsum h
  exact ⟨_, g, hsum, hg, hone⟩

/-- Whatever is made out of finite numbers has a fraction from zero to one. -/
theorem Built.exists_stands (h : Built t) : ∃ f, Stands t f := by
  induction h with
  | zero => exact ⟨0, by decide +kernel, le_rfl, zero_le_one⟩
  | make hfinite h =>
    obtain ⟨q, hq⟩ := isFinite_iff.1 hfinite
    obtain ⟨f, hf, -⟩ := stands_of_make hq h
    exact ⟨f, hf⟩
  | ofSecs hfinite h =>
    obtain ⟨q, hq⟩ := isFinite_iff.1 hfinite
    obtain ⟨f, hf, -⟩ := stands_of_make hq h
    exact ⟨f, hf⟩
  | addSecs _ hfinite h ih =>
    obtain ⟨f, hf⟩ := ih
    obtain ⟨q, hq⟩ := isFinite_iff.1 hfinite
    obtain ⟨_, g, -, hg, -⟩ := exists_sum_of_addSecs hf hq h
    exact ⟨g, hg⟩

theorem compare?_eq (ha : Stands a f) (hb : Stands b g) :
    a.compare? b = some ((compare a.full b.full).then (compare f g)) := by
  unfold compare?
  simp only [lt_iff ha.value hb.value, lt_iff hb.value ha.value, eq_iff ha.value hb.value]
  rcases lt_trichotomy a.full b.full with h | h | h
  · rw [if_pos h, compare_lt_iff_lt.2 h]
    rfl
  · rw [if_neg h.not_lt, if_neg h.not_gt, compare_eq_iff_eq.2 h, Ordering.eq_then]
    rcases lt_trichotomy f g with h | h | h
    · rw [if_pos h, compare_lt_iff_lt.2 h]
    · rw [if_neg h.not_lt, if_neg h.not_gt, if_pos h, compare_eq_iff_eq.2 h]
    · rw [if_neg h.not_gt, if_pos h, compare_gt_iff_gt.2 h]
  · rw [if_neg h.not_gt, if_pos h, compare_gt_iff_gt.2 h]
    rfl

end

/-- With fewer whole seconds a sum is less, unless the fractions make up for a second. -/
theorem add_lt_add_iff {m n : ℤ} {f g : ℚ} (h : m < n) (hf : f ≤ 1) (hg : 0 ≤ g) :
    (m : ℚ) + f < n + g ↔ ¬(f = 1 ∧ g = 0 ∧ n = m + 1) := by
  have hstep : (m : ℚ) + 1 ≤ n := by exact_mod_cast h
  constructor
  · rintro hlt ⟨rfl, rfl, rfl⟩
    push_cast at hlt
    linarith
  · intro hapart
    by_contra hge
    have hone : f = 1 := by linarith
    have hzero : g = 0 := by linarith
    have hnext : (n : ℚ) = m + 1 := by linarith
    exact hapart ⟨hone, hzero, by exact_mod_cast hnext⟩

/-- Whole seconds first, then fractions from zero to one: that is the order of the sums, unless a
fraction is one and makes up for the next second. -/
theorem compare_then_iff {m n : ℤ} {f g : ℚ} (hf : 0 ≤ f) (hf' : f ≤ 1) (hg : 0 ≤ g)
    (hg' : g ≤ 1) : (compare m n).then (compare f g) = compare ((m : ℚ) + f) (n + g) ↔
      ¬(f = 1 ∧ g = 0 ∧ n = m + 1) ∧ ¬(g = 1 ∧ f = 0 ∧ m = n + 1) := by
  rcases lt_trichotomy m n with h | rfl | h
  · have hother : ¬(g = 1 ∧ f = 0 ∧ m = n + 1) := fun hnext => by omega
    rw [compare_lt_iff_lt.2 h, eq_comm, and_iff_left hother, ← add_lt_add_iff h hf' hg]
    exact compare_lt_iff_lt
  · have hsame : compare ((m : ℚ) + f) (m + g) = compare f g := by
      rcases lt_trichotomy f g with h | rfl | h
      · rw [compare_lt_iff_lt.2 h, compare_lt_iff_lt.2 (by linarith)]
      · rw [compare_eq_iff_eq.2 rfl, compare_eq_iff_eq.2 rfl]
      · rw [compare_gt_iff_gt.2 h, compare_gt_iff_gt.2 (by linarith)]
    rw [compare_eq_iff_eq.2 rfl, Ordering.eq_then, hsame]
    exact iff_of_true rfl ⟨fun hnext => by omega, fun hnext => by omega⟩
  · have hother : ¬(f = 1 ∧ g = 0 ∧ n = m + 1) := fun hnext => by omega
    rw [compare_gt_iff_gt.2 h, eq_comm, and_iff_right hother, ← add_lt_add_iff h hg' hf]
    exact compare_gt_iff_gt

/-- Of every finite number a fraction from zero to one is kept.  It is less than one, as it is meant
to be, if and only if the number, or the sum with the fraction that it was added to, was not tiny
and negative.  Points compare in the order of the instants that they denote, unless one of them has
kept a fraction of one and the other one is the second that follows. -/
theorem fraction_account {a b : TimeSpec Float} (ha : Built a) (hb : Built b) {x : Float} {q : ℚ}
    (hx : value? x = some q) :
    (∀ full t, make full x = .ok t → ∃ f, Stands t f ∧ (f < 1 ↔ ¬(-tiny ≤ q ∧ q < 0))) ∧
    (∀ t, ofSecs x = .ok t → ∃ f, Stands t f ∧ (f < 1 ↔ ¬(-tiny ≤ q ∧ q < 0))) ∧
    (∀ t, a.addSecs x = .ok t → ∃ sum f, value? (a.frac + x) = some sum ∧ Stands t f ∧
      (f < 1 ↔ ¬(-tiny ≤ sum ∧ sum < 0))) ∧
    ∃ f g, Stands a f ∧ Stands b g ∧
      (a.compare? b = some (compare ((a.full : ℚ) + f) (b.full + g)) ↔
        ¬(f = 1 ∧ g = 0 ∧ b.full = a.full + 1) ∧ ¬(g = 1 ∧ f = 0 ∧ a.full = b.full + 1)) := by
  obtain ⟨f, hf⟩ := ha.exists_stands
  obtain ⟨g, hg⟩ := hb.exists_stands
  refine ⟨fun full t => stands_of_make hx, fun t => stands_of_make hx,
    fun t => exists_sum_of_addSecs hf hx, f, g, hf, hg, ?_⟩
  rw [compare?_eq hf hg, Option.some.injEq]
  exact compare_then_iff hf.nonneg hf.le_one hg.nonneg hg.le_one

/-- Two and a quarter seconds after the fifth, and half a second later. -/
theorem fraction_of_quarters : ∃ s t : TimeSpec Float,
    make 5 (Float.ofBits 0x4002000000000000) = .ok s ∧
    s.addSecs (Float.ofBits 0x3FE0000000000000) = .ok t ∧ (∃ f, Stands t f ∧ f < 1) ∧
    s.compare? t = some (compare (7 + 1 / 4 : ℚ) (7 + 3 / 4)) := by
  have hs : make 5 (Float.ofBits 0x4002000000000000) =
      .ok (⟨7, Float.ofBits 0x3FD0000000000000⟩ : TimeSpec Float) := by
    rw [make_eq, if_pos (by decide +kernel)]
    rfl
  have ht : (⟨7, Float.ofBits 0x3FD0000000000000⟩ : TimeSpec Float).addSecs
      (Float.ofBits 0x3FE0000000000000) = .ok ⟨7, Float.ofBits 0x3FE8000000000000⟩ := by
    rw [addSecs_eq, if_pos (by decide +kernel)]
    rfl
  have hbuilt : Built ⟨7, Float.ofBits 0x3FD0000000000000⟩ := .make (by decide +kernel) hs
  have hbuilt' : Built ⟨7, Float.ofBits 0x3FE8000000000000⟩ :=
    .addSecs hbuilt (by decide +kernel) ht
  obtain ⟨-, -, hadd, f, g, hf, hg, horder⟩ := fraction_account hbuilt hbuilt'
    (x := Float.ofBits 0x3FE0000000000000) (q := 1 / 2) (by decide +kernel)
  obtain ⟨sum, f', hsum, hf', hone⟩ := hadd _ ht
  obtain rfl : 3 / 4 = sum := Option.some.inj (Eq.trans (by decide +kernel) hsum)
  obtain rfl : 1 / 4 = f := Option.some.inj (Eq.trans (by decide +kernel) hf.value)
  obtain rfl : 3 / 4 = g := Option.some.inj (Eq.trans (by decide +kernel) hg.value)
  exact ⟨_, _, hs, ht, ⟨f', hf', hone.2 (by decide +kernel)⟩, horder.2 (by decide +kernel)⟩

/-- A hundredth of a billionth of a billionth below zero is kept as a whole second.  The point is
five seconds, and compares as earlier. -/
theorem make_below_zero : (Float.ofBits 0xBBC79CA10C924223).isFinite ∧ ∃ t : TimeSpec Float,
    make 5 (Float.ofBits 0xBBC79CA10C924223) = .ok t ∧ t.full = 4 ∧ value? t.frac = some 1 ∧
    t.compare? ⟨5, Scalar.ofInt 0⟩ = some .lt := by
  have hmake : make 5 (Float.ofBits 0xBBC79CA10C924223) =
      .ok (⟨4, Float.ofBits 0x3FF0000000000000⟩ : TimeSpec Float) := by
    rw [make_eq, if_pos (by decide +kernel)]
    rfl
  exact ⟨by decide +kernel, _, hmake, rfl, by decide +kernel, by decide +kernel⟩

end SoftRadio.TimeSpec
