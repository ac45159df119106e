import SoftRadio.Proofs.Exact
import SoftRadio.Proofs.Outcome
import SoftRadio.Range

/-!
# Ranges in exact arithmetic

A value that is moved into a range comes to lie in it: without steps at the nearest point, with
steps on one of them or at the stop.

* `Scalar.clamp_eq`, `Scalar.max_eq`, `Scalar.min_eq`: the arithmetic's own bounds are those of
  the order; `Scalar.sum_eq`: its sum is that of the list.
* `Scalar.exists_round_eq`: what is not negative is rounded to a natural number next to it.
* `Range.nearest_mem`: wherever a value goes in a range, it is in the range.
* `Range.nearest_eq`: where it goes without steps, and `Range.abs_nearest_sub_le`: no point of the
  range is nearer.
* `Range.NextStep`, `Range.exists_nextStep`: where it goes with steps.
* `Ranges.clip_single`: in a list of one range there is nothing to choose.
-/

namespace SoftRadio

namespace Scalar

variable {x low high : ℚ}

theorem zero_lt_iff : Scalar.lt (Scalar.ofInt 0) x = true ↔ 0 < x := by
  show decide (((0 : ℤ) : ℚ) < x) = true ↔ 0 < x
  rw [decide_eq_true_iff, Int.cast_zero]

theorem max_eq (a b : ℚ) : Scalar.max a b = Max.max a b := by
  show (if (false || decide (a ≤ b)) = true then b else a) = _
  by_cases h : a ≤ b
  · rw [max_eq_right h, if_pos (by simpa using h)]
  · rw [max_eq_left (le_of_not_ge h), if_neg (by simpa using h)]

theorem min_eq (a b : ℚ) : Scalar.min a b = Min.min a b := by
  show (if (false || decide (b ≤ a)) = true then b else a) = _
  by_cases h : b ≤ a
  · rw [min_eq_right h, if_pos (by simpa using h)]
  · rw [min_eq_left (le_of_not_ge h), if_neg (by simpa using h)]

theorem sum_eq (xs : List ℚ) : Scalar.sum xs = xs.sum := by
  unfold Scalar.sum
  rw [List.sum_eq_foldl]
  rfl

/-- Between bounds that are in order a value is moved as little as can be. -/
theorem clamp_eq (x : ℚ) (h : low ≤ high) :
    Scalar.clamp x low high = .ok (Max.max low (Min.min x high)) := by
  have hle : Scalar.le low high = true := decide_eq_true h
  unfold Scalar.clamp
  rw [if_pos hle]
  congr 1
  show (if decide (x < low) = true then low else if decide (high < x) = true then high else x) = _
  by_cases hlow : x < low
  · have hx : Min.min x high = x := min_eq_left (by linarith)
    rw [if_pos (decide_eq_true hlow), hx, max_eq_left hlow.le]
  · by_cases hhigh : high < x
    · rw [if_neg (by simpa using hlow), if_pos (decide_eq_true hhigh), min_eq_right hhigh.le,
        max_eq_right h]
    · rw [if_neg (by simpa using hlow), if_neg (by simpa using hhigh),
        min_eq_left (le_of_not_gt hhigh), max_eq_right (le_of_not_gt hlow)]

/-- What is not negative is rounded to a natural number that is no more than a half away. -/
theorem exists_round_eq (h : 0 ≤ x) :
    ∃ k : ℕ, Scalar.round x = (k : ℚ) ∧ (k : ℚ) ≤ x + 1 / 2 ∧ x + 1 / 2 < k + 1 := by
  have hhalf : 0 ≤ x + 1 / 2 := by linarith
  refine ⟨⌊x + 1 / 2⌋₊, ?_, Nat.floor_le hhalf, Nat.lt_floor_add_one _⟩
  show (if 0 ≤ x then ((⌊x + 1 / 2⌋ : ℤ) : ℚ) else _) = _
  rw [if_pos h]
  exact (natCast_floor_eq_intCast_floor hhalf).symm

theorem round_natCast (n : ℕ) : Scalar.round (n : ℚ) = n := by
  obtain ⟨k, hk, hbelow, habove⟩ := exists_round_eq (Nat.cast_nonneg (α := ℚ) n)
  have hkn : (k : ℚ) < n + 1 := by linarith
  have hnk : (n : ℚ) < k + 1 := by linarith
  have hsame : k = n := le_antisymm (Nat.lt_succ_iff.1 (by exact_mod_cast hkn))
    (Nat.lt_succ_iff.1 (by exact_mod_cast hnk))
  rw [hk, hsame]

/-- Rounding does not lead beyond a natural number. -/
theorem exists_round_le {n : ℕ} (h : 0 ≤ x) (hn : x ≤ n) :
    ∃ k ≤ n, Scalar.round x = (k : ℚ) ∧ (k : ℚ) ≤ x + 1 / 2 ∧ x + 1 / 2 < k + 1 := by
  obtain ⟨k, hk, hbelow, habove⟩ := exists_round_eq h
  have hkn : (k : ℚ) < n + 1 := by linarith
  exact ⟨k, Nat.lt_succ_iff.1 (by exact_mod_cast hkn), hk, hbelow, habove⟩

end Scalar

namespace Range

variable {r : Range ℚ}

/-- Wherever a value goes in a range, it is in the range. -/
theorem nearest_mem {value v : ℚ} {snap : Bool} (horder : r.start ≤ r.stop)
    (h : r.nearest value snap = .ok v) : r.start ≤ v ∧ v ≤ r.stop := by
  obtain ⟨inside, hinside, h⟩ := bind_eq_ok_iff.1 h
  rw [Scalar.clamp_eq value horder] at hinside
  cases hinside
  have hlow : r.start ≤ max r.start (min value r.stop) := le_max_left _ _
  have hhigh : max r.start (min value r.stop) ≤ r.stop := max_le horder (min_le_right _ _)
  generalize max r.start (min value r.stop) = inside at hlow hhigh h
  split at h
  next hsnap =>
    cases pure_eq_ok_iff.1 h
    have hstep : 0 < r.step := of_decide_eq_true (Bool.and_eq_true_iff.1 hsnap).2
    have hsteps : 0 ≤ (inside - r.start) / r.step := div_nonneg (by linarith) hstep.le
    obtain ⟨k, hk, -, -⟩ := Scalar.exists_round_eq hsteps
    rw [hk, Scalar.min_eq]
    have hadded : 0 ≤ (k : ℚ) * r.step := mul_nonneg (Nat.cast_nonneg k) hstep.le
    exact ⟨le_min (by linarith) horder, min_le_right _ _⟩
  next =>
    cases pure_eq_ok_iff.1 h
    exact ⟨hlow, hhigh⟩

/-- Without steps a value is moved as little as can be. -/
theorem nearest_eq (value : ℚ) (horder : r.start ≤ r.stop) :
    r.nearest value false = .ok (max r.start (min value r.stop)) := by
  unfold nearest
  rw [Scalar.clamp_eq value horder]
  rfl

/-- No point of the range is nearer to a value than the one it is moved to. -/
theorem abs_nearest_sub_le {value v w : ℚ} (h : r.nearest value false = .ok v)
    (hlow : r.start ≤ w) (hhigh : w ≤ r.stop) : |v - value| ≤ |w - value| := by
  cases (nearest_eq value (hlow.trans hhigh)).symm.trans h
  rcases le_total value r.start with hbelow | habove
  · rw [min_eq_left (by linarith), max_eq_left hbelow, abs_of_nonneg (by linarith),
      abs_of_nonneg (by linarith)]
    linarith
  · rcases le_total value r.stop with hinside | hbeyond
    · rw [min_eq_left hinside, max_eq_right habove, sub_self, abs_zero]
      exact abs_nonneg _
    · rw [min_eq_right hbeyond, max_eq_right (by linarith), abs_of_nonpos (by linarith),
        abs_of_nonpos (by linarith)]
      linarith

/-- A point is a whole number of steps from the start, and it is the one next to a value: at an end
of the range if the value lies at that end or beyond it, and otherwise no more than half a step
away, half way up included. -/
structure NextStep (r : Range ℚ) (value v : ℚ) : Prop where
  steps : ∃ k : ℕ, v = r.start + k * r.step
  mem : r.start ≤ v ∧ v ≤ r.stop
  of_le_start : value ≤ r.start → v = r.start
  of_stop_le : r.stop ≤ value → v = r.stop
  near : r.start ≤ value → value ≤ r.stop → v - r.step / 2 ≤ value ∧ value < v + r.step / 2

theorem nearest_snap (value : ℚ) (hstep : 0 < r.step) (horder : r.start ≤ r.stop) :
    r.nearest value true = .ok (min (r.start +
      Scalar.round ((max r.start (min value r.stop) - r.start) / r.step) * r.step) r.stop) := by
  unfold nearest
  rw [Scalar.clamp_eq value horder]
  refine (if_pos (Scalar.zero_lt_iff.2 hstep)).trans ?_
  rw [Scalar.min_eq]
  rfl

/-- With steps, if the stop is one of them, a value is moved to the one next to it. -/
theorem exists_nextStep {n : ℕ} (hstep : 0 < r.step) (hstop : r.stop = r.start + n * r.step)
    (value : ℚ) : ∃ v, r.nearest value true = .ok v ∧ r.NextStep value v := by
  have horder : r.start ≤ r.stop := by
    have hlength : 0 ≤ (n : ℚ) * r.step := mul_nonneg (Nat.cast_nonneg n) hstep.le
    linarith
  -- all is told in steps from the start
  obtain ⟨steps, hsteps⟩ : ∃ steps, (max r.start (min value r.stop) - r.start) / r.step = steps :=
    ⟨_, rfl⟩
  have hinside : max r.start (min value r.stop) = r.start + steps * r.step := by
    rw [← hsteps, div_mul_cancel₀ _ hstep.ne', add_sub_cancel]
  have hleast : 0 ≤ steps := hsteps ▸ div_nonneg (sub_nonneg.2 (le_max_left _ _)) hstep.le
  have hmost : steps ≤ n := by
    have hle : max r.start (min value r.stop) ≤ r.stop := max_le horder (min_le_right _ _)
    rw [← hsteps, div_le_iff₀ hstep]
    linarith
  obtain ⟨k, hkn, hk, hbelow, habove⟩ := Scalar.exists_round_le hleast hmost
  have hadded : 0 ≤ (k : ℚ) * r.step := mul_nonneg (Nat.cast_nonneg k) hstep.le
  have hkept : r.start + k * r.step ≤ r.stop := by
    have hle : (k : ℚ) * r.step ≤ n * r.step :=
      mul_le_mul_of_nonneg_right (by exact_mod_cast hkn) hstep.le
    linarith
  refine ⟨r.start + k * r.step, ?_, ⟨k, rfl⟩, ⟨by linarith, hkept⟩, fun hle => ?_, fun hle => ?_,
    fun hstart hend => ?_⟩
  · rw [nearest_snap value hstep horder, hsteps, hk, min_eq_left hkept]
  · have hnone : steps = (0 : ℕ) := by
      rw [← hsteps, min_eq_left (hle.trans horder), max_eq_left hle, sub_self, zero_div,
        Nat.cast_zero]
    rw [← hk, hnone, Scalar.round_natCast, Nat.cast_zero, zero_mul, add_zero]
  · have hall : steps = n := by
      rw [← hsteps, min_eq_right hle, max_eq_right horder, hstop, add_sub_cancel_left,
        mul_div_cancel_right₀ _ hstep.ne']
    rw [← hk, hall, Scalar.round_natCast, hstop]
  · rw [min_eq_left hend, max_eq_right hstart] at hinside
    have hdown := mul_le_mul_of_nonneg_right hbelow hstep.le
    have hup := mul_lt_mul_of_pos_right habove hstep
    constructor
    · linarith
    · linarith

/-- It comes to the same if what is beyond the stop is taken away first. -/
theorem NextStep.of_min {value v : ℚ} (h : r.NextStep (min value r.stop) v) :
    r.NextStep value v := by
  refine ⟨h.steps, h.mem, fun hle => h.of_le_start ((min_le_left _ _).trans hle), fun hle => ?_,
    fun hstart hend => ?_⟩
  · exact h.of_stop_le (le_min hle le_rfl)
  · have hsame : min value r.stop = value := min_eq_left hend
    exact hsame ▸ h.near (hsame.symm ▸ hstart) (hsame.symm ▸ hend)

end Range

namespace Ranges

/-- In a list of one range there is nothing to choose. -/
theorem clip_single (r : Range ℚ) (value : ℚ) (snap : Bool) :
    (Ranges.mk [r]).clip value snap = r.nearest value snap := by
  show clipFrom value snap r.start none [r] = _
  unfold clipFrom
  cases r.nearest value snap with
  | error f => rfl
  | ok v => rfl

theorem step_single {step : ℚ} (start stop : ℚ) (h : 0 < step) :
    (single start stop step).step = .ok step := by
  have hfilter : ((single start stop step).items.map Range.step).filter
      (Scalar.lt (Scalar.ofInt 0)) = [step] :=
    List.filter_cons_of_pos (Scalar.zero_lt_iff.2 h)
  unfold Ranges.step
  rw [hfilter]
  rfl

theorem contains_single {start stop step v : ℚ} :
    (single start stop step).contains v = true ↔ start ≤ v ∧ v ≤ stop := by
  show ((decide (start ≤ v) && decide (v ≤ stop)) || false) = true ↔ _
  rw [Bool.or_false, Bool.and_eq_true, decide_eq_true_iff, decide_eq_true_iff]

end Ranges

end SoftRadio
