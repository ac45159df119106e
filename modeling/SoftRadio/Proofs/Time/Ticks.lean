import Mathlib.Algebra.Order.Round
import SoftRadio.Proofs.Exact

/-!
# The ticks of a point in time

The ticks of a clock at a point in time are counted in two parts: the whole seconds, at the rate
rounded to a whole number, and what is left of a second, at the rate itself.  In exact arithmetic
the second part strays from the time by half a tick at most.  The first is off by what the rounding
of the rate adds or takes away, and that once for every second.

* `count`: the whole number nearest to a number of ticks; `toTicks_eq_ok_iff`: the two parts.
* `slip`: how far a whole second is miscounted; `one_le_mul_abs_slip`: by no less than a fraction
  of a tick at a divided rate that is not whole.
* `toTicks_sub_eq`: how far the count is off; `isNearest_iff`: how far it may be.
* `toTicks_le_toTicks`: later points have no fewer ticks, at any rate.
* `toTicks_account`: all of it together.
-/

namespace SoftRadio.TimeSpec

/-- The whole number of ticks that is nearest to `x`, as far as it fits. -/
def count (x : ℚ) : ℤ := Scalar.toInt (Scalar.round x)

/-- How many ticks a whole second is counted over. -/
def slip (rate : ℚ) : ℚ := count rate - rate

/-- How many ticks the fraction of a second is counted over. -/
def stray (t : TimeSpec ℚ) (rate : ℚ) : ℚ := count (t.frac * rate) - t.frac * rate

/-- No whole number is nearer. -/
def IsNearest (n : ℤ) (x : ℚ) : Prop := ∀ m : ℤ, |n - x| ≤ |m - x|

theorem count_eq {x : ℚ} (h : 0 ≤ x) : count x = Word.clamp (round x) := by
  have hround : Scalar.round x = ((round x : ℤ) : ℚ) := by
    rw [round_eq]
    exact if_pos h
  unfold count
  rw [hround]
  show Word.clamp (Int.tdiv ((round x : ℤ) : ℚ).num ((round x : ℤ) : ℚ).den) = _
  rw [Rat.num_intCast, Rat.den_intCast, Nat.cast_one, Int.tdiv_one]

theorem count_le_count {x y : ℚ} (hx : 0 ≤ x) (hxy : x ≤ y) : count x ≤ count y := by
  have hround : round x ≤ round y := by
    rw [round_eq, round_eq]
    exact Int.floor_le_floor (by linarith)
  rw [count_eq hx, count_eq (hx.trans hxy)]
  unfold Word.clamp
  omega

theorem count_nonneg {x : ℚ} (h : 0 ≤ x) : 0 ≤ count x := by
  have hzero : count 0 = 0 := by
    rw [count_eq le_rfl, round_zero]
    rfl
  exact hzero ▸ count_le_count le_rfl h

/-- As long as it fits, a number of ticks is counted to within half a tick. -/
theorem abs_count_sub_le {x : ℚ} (h : 0 ≤ x) (hfits : x ≤ Word.greatest) :
    |count x - x| ≤ 1 / 2 := by
  have hlow : 0 ≤ round x := by
    rw [round_eq]
    exact Int.floor_nonneg.2 (by linarith)
  have hhigh : round x ≤ Word.greatest := by
    rw [round_eq, ← Int.lt_add_one_iff, Int.floor_lt]
    push_cast
    linarith
  have hword : Word.fits (round x) := by
    unfold Word.fits Word.least
    exact Bool.and_eq_true_iff.2 ⟨decide_eq_true (by omega), decide_eq_true hhigh⟩
  rw [count_eq h, Word.clamp_of_fits _ hword, abs_sub_comm]
  exact abs_sub_round x

/-- A whole number of ticks that fits is counted as it is. -/
theorem slip_natCast {n : ℕ} (hfits : (n : ℚ) ≤ Word.greatest) : slip n = 0 := by
  have hword : Word.fits (n : ℤ) := by
    have hle : (n : ℤ) ≤ Word.greatest := by exact_mod_cast hfits
    unfold Word.fits Word.least
    exact Bool.and_eq_true_iff.2 ⟨decide_eq_true (by omega), decide_eq_true hle⟩
  unfold slip
  rw [count_eq (Nat.cast_nonneg n), round_natCast, Word.clamp_of_fits _ hword, Int.cast_natCast,
    sub_self]

/-- At a rate that is a clock's divided by a whole number, a second is miscounted by a multiple of
the divisor's part of a tick, and by none only if the division leaves nothing. -/
theorem one_le_mul_abs_slip {clock divisor : ℕ} (hdivisor : 0 < divisor)
    (h : ¬divisor ∣ clock) : 1 ≤ divisor * |slip (clock / divisor)| := by
  have hpos : (0 : ℚ) < divisor := Nat.cast_pos.2 hdivisor
  have hparts : (divisor : ℚ) * slip (clock / divisor) =
      ((divisor * count (clock / divisor) - clock : ℤ) : ℚ) := by
    unfold slip
    push_cast
    field_simp
  have hne : (divisor * count (clock / divisor) - clock : ℤ) ≠ 0 := by
    intro hzero
    exact h (Int.natCast_dvd_natCast.1 ⟨_, (sub_eq_zero.1 hzero).symm⟩)
  calc (1 : ℚ) ≤ ((|(divisor * count (clock / divisor) - clock : ℤ)| : ℤ) : ℚ) := by
        exact_mod_cast Int.one_le_abs hne
    _ = divisor * |slip (clock / divisor)| := by
        rw [Int.cast_abs, ← hparts, abs_mul, abs_of_pos hpos]

/-- A whole number within a half is a nearest one, and there is none nearest that is not. -/
theorem isNearest_iff {n : ℤ} {x : ℚ} : IsNearest n x ↔ |n - x| ≤ 1 / 2 := by
  constructor
  · intro h
    refine (h (round x)).trans ?_
    rw [abs_sub_comm]
    exact abs_sub_round x
  · intro h m
    rcases eq_or_ne m n with rfl | hne
    · exact le_rfl
    · have hapart : (1 : ℚ) ≤ |(m : ℚ) - n| := by
        exact_mod_cast Int.one_le_abs (sub_ne_zero.2 hne)
      have htriangle := abs_sub_abs_le_abs_sub ((m : ℚ) - n) (x - n)
      rw [sub_sub_sub_cancel_right, abs_sub_comm x] at htriangle
      linarith

section

variable {t u : TimeSpec ℚ} {rate : ℚ} {n m : ℤ}

theorem toTicks_eq_ok_iff : t.toTicks rate = .ok n ↔ Word.fits (t.full * count rate) ∧
    Word.fits n ∧ n = t.full * count rate + count (t.frac * rate) := by
  show (Checked.mul t.full (count rate) >>= fun full =>
    Checked.add full (count (t.frac * rate))) = .ok n ↔ _
  unfold Checked.mul Checked.add
  by_cases hmul : Word.fits (t.full * count rate)
  · rw [if_pos hmul]
    show (if _ then _ else _) = _ ↔ _
    split
    next hadd =>
      rw [Except.ok.injEq]
      constructor
      · rintro rfl
        exact ⟨hmul, hadd, rfl⟩
      · exact fun h => h.2.2.symm
    next hadd =>
      refine iff_of_false nofun ?_
      rintro ⟨-, hfits, rfl⟩
      exact hadd hfits
  · rw [if_neg hmul]
    exact iff_of_false nofun fun h => hmul h.1

/-- The count is off by the slip of every whole second, and by what the rest strays. -/
theorem toTicks_sub_eq (h : t.toTicks rate = .ok n) :
    n - t.toSecs * rate = t.full * slip rate + stray t rate := by
  have hsecs : t.toSecs = (t.full : ℚ) + t.frac := rfl
  obtain ⟨-, -, rfl⟩ := toTicks_eq_ok_iff.1 h
  unfold slip stray
  rw [hsecs]
  push_cast
  ring

theorem Normal.mul_rate_nonneg (ht : t.Normal) (hrate : 0 < rate) : 0 ≤ t.frac * rate :=
  mul_nonneg ht.nonneg hrate.le

theorem Normal.mul_rate_le (ht : t.Normal) (hrate : 0 < rate) : t.frac * rate ≤ rate :=
  mul_le_of_le_one_left hrate.le ht.lt_one.le

/-- The ticks of a fraction are no more than those of a whole second, so that a later point never
has fewer, however the seconds are counted. -/
theorem toTicks_le_toTicks (ht : t.Normal) (hu : u.Normal) (hrate : 0 < rate)
    (hn : t.toTicks rate = .ok n) (hm : u.toTicks rate = .ok m) (h : t.toSecs ≤ u.toSecs) :
    n ≤ m := by
  obtain ⟨-, -, rfl⟩ := toTicks_eq_ok_iff.1 hn
  obtain ⟨-, -, rfl⟩ := toTicks_eq_ok_iff.1 hm
  have hsecs : (t.full : ℚ) + t.frac ≤ u.full + u.frac := h
  have hfull : t.full ≤ u.full := by
    have hlt : (t.full : ℚ) < u.full + 1 := by linarith [ht.nonneg, hu.lt_one]
    exact Int.lt_add_one_iff.1 (by exact_mod_cast hlt)
  rcases hfull.eq_or_lt with heq | hlt
  · have hfrac : t.frac ≤ u.frac := by
      rw [heq] at hsecs
      linarith
    have hcount := count_le_count (ht.mul_rate_nonneg hrate)
      (mul_le_mul_of_nonneg_right hfrac hrate.le)
    rw [heq]
    omega
  · calc t.full * count rate + count (t.frac * rate)
        ≤ t.full * count rate + count rate :=
          add_le_add_right (count_le_count (ht.mul_rate_nonneg hrate) (ht.mul_rate_le hrate)) _
      _ = (t.full + 1) * count rate := by ring
      _ ≤ u.full * count rate :=
          mul_le_mul_of_nonneg_right hlt (count_nonneg hrate.le)
      _ ≤ u.full * count rate + count (u.frac * rate) :=
          le_add_of_nonneg_right (count_nonneg (hu.mul_rate_nonneg hrate))

/-- The ticks of a point in time are off by the slip of the rate for each of its whole seconds, and
by no more than half a tick besides.  So they are the nearest ones at rates that are whole, and are
not at any other rate to which a clock is divided, once there are more seconds than the divisor
says.  At every rate they grow with the time. -/
theorem toTicks_account (ht : t.Normal) (hrate : 0 < rate) (h : t.toTicks rate = .ok n) :
    n - t.toSecs * rate = t.full * slip rate + stray t rate ∧
    (IsNearest n (t.toSecs * rate) ↔ |t.full * slip rate + stray t rate| ≤ 1 / 2) ∧
    (rate ≤ Word.greatest → |slip rate| ≤ 1 / 2 ∧ |stray t rate| ≤ 1 / 2 ∧
      ∀ clock divisor : ℕ, 0 < divisor → rate = clock / divisor →
        (divisor ∣ clock → IsNearest n (t.toSecs * rate)) ∧
        (¬divisor ∣ clock → divisor < |t.full| → ¬IsNearest n (t.toSecs * rate))) ∧
    ∀ (u : TimeSpec ℚ) (m : ℤ), u.Normal → u.toTicks rate = .ok m → t.toSecs ≤ u.toSecs →
      n ≤ m := by
  have hoff := toTicks_sub_eq h
  refine ⟨hoff, by rw [isNearest_iff, hoff], fun hfits => ?_,
    fun u m hu hm => toTicks_le_toTicks ht hu hrate h hm⟩
  have hstray : |stray t rate| ≤ 1 / 2 :=
    abs_count_sub_le (ht.mul_rate_nonneg hrate) ((ht.mul_rate_le hrate).trans hfits)
  refine ⟨abs_count_sub_le hrate.le hfits, hstray, fun clock divisor hdivisor hdivided =>
    ⟨fun hwhole => ?_, fun hrest hlong hnearest => ?_⟩⟩
  · obtain ⟨k, rfl⟩ := hwhole
    have hk : rate = k := by
      rw [hdivided, Nat.cast_mul]
      exact mul_div_cancel_left₀ _ (Nat.cast_ne_zero.2 hdivisor.ne')
    have hslip : slip rate = 0 := hk ▸ slip_natCast (hk ▸ hfits)
    rw [isNearest_iff, hoff, hslip, mul_zero, zero_add]
    exact hstray
  · have hslip : 1 ≤ divisor * |slip rate| := hdivided ▸ one_le_mul_abs_slip hdivisor hrest
    have hmany : (divisor : ℚ) + 1 ≤ |(t.full : ℚ)| := by exact_mod_cast hlong
    have hdrift : 1 < |t.full * slip rate| := by
      have hpos : 0 < |slip rate| := by
        by_contra hzero
        have hnonpos := mul_nonpos_of_nonneg_of_nonpos (Nat.cast_nonneg divisor) (not_lt.1 hzero)
        linarith
      rw [abs_mul]
      have hgrow := mul_le_mul_of_nonneg_right hmany hpos.le
      linarith
    rw [isNearest_iff, hoff] at hnearest
    have htriangle := abs_sub_abs_le_abs_add (t.full * slip rate) (stray t rate)
    linarith

end

/-- A clock of 32 million ticks divided by two, after seven seconds and a quarter. -/
theorem toTicks_half_of_clock : (⟨7, 1 / 4⟩ : TimeSpec ℚ).toTicks 16000000 = .ok 116000000 ∧
    IsNearest 116000000 ((⟨7, 1 / 4⟩ : TimeSpec ℚ).toSecs * 16000000) := by
  have hticks : (⟨7, 1 / 4⟩ : TimeSpec ℚ).toTicks 16000000 = .ok 116000000 := by decide +kernel
  have hfits : (16000000 : ℚ) ≤ Word.greatest := by decide +kernel
  obtain ⟨-, -, hrates, -⟩ := toTicks_account ⟨rfl, by norm_num, by norm_num⟩ (by norm_num) hticks
  obtain ⟨-, -, hdivided⟩ := hrates hfits
  exact ⟨hticks, (hdivided 32000000 2 two_pos (by norm_num)).1 ⟨16000000, rfl⟩⟩

/-- The rate is a clock's of 32 million ticks divided by three.  In ten whole seconds there are
three ticks more than in so many seconds of the clock. -/
theorem toTicks_third_of_clock : (⟨10, 0⟩ : TimeSpec ℚ).Normal ∧
    (⟨10, 0⟩ : TimeSpec ℚ).toTicks (32000000 / 3) = .ok 106666670 ∧
    ¬IsNearest 106666670 ((⟨10, 0⟩ : TimeSpec ℚ).toSecs * (32000000 / 3)) := by
  refine ⟨⟨rfl, le_rfl, one_pos⟩, by decide +kernel, ?_⟩
  rw [isNearest_iff]
  decide +kernel

end SoftRadio.TimeSpec
