import SoftRadio.Proofs.Range

/-!
# The nearest point of many ranges

Ranges may lie in any order and over one another.  Still a value that is clipped goes to the
nearest point that any of them covers: the ranges are gone through one by one, and the nearest
point so far is kept.

* `Range.exists_nearest`: where a value goes in one range, and how near to it that is.
* `Ranges.Chosen`: the point of a range that is nearer than those of the ranges before, and as near
  as those of the ranges after; `Ranges.clipFrom_cases`, `Ranges.exists_clip_chosen`: it is found.
* `Ranges.IsNearest`: a covered point at the least distance; `Ranges.IsNearest.le_of_le`: of greater
  values such points are greater.
* `Ranges.clip_isNearest`: clipping, without steps and with steps.
-/

namespace SoftRadio

namespace Range

variable {r : Range ℚ}

theorem covers_iff {v : ℚ} : r.covers v = true ↔ r.start ≤ v ∧ v ≤ r.stop := by
  show (decide (r.start ≤ v) && decide (v ≤ r.stop)) = true ↔ _
  rw [Bool.and_eq_true, decide_eq_true_iff, decide_eq_true_iff]

/-- To be on a step a point is moved by no more than half of one. -/
theorem abs_min_round_sub_le {inside : ℚ} (hstep : 0 < r.step) (hlow : r.start ≤ inside)
    (hhigh : inside ≤ r.stop) :
    |min (r.start + Scalar.round ((inside - r.start) / r.step) * r.step) r.stop - inside| ≤
      r.step / 2 := by
  have hsteps : 0 ≤ (inside - r.start) / r.step := div_nonneg (by linarith) hstep.le
  obtain ⟨k, hk, hbelow, habove⟩ := Scalar.exists_round_eq hsteps
  have hback : (inside - r.start) / r.step * r.step = inside - r.start :=
    div_mul_cancel₀ _ hstep.ne'
  have hdown := mul_le_mul_of_nonneg_right hbelow hstep.le
  have hup := mul_le_mul_of_nonneg_right habove.le hstep.le
  rw [hk, abs_le]
  rcases le_total (r.start + k * r.step) r.stop with hle | hle
  · rw [min_eq_left hle]
    constructor <;> linarith
  · rw [min_eq_right hle]
    constructor <;> linarith

/-- A value has its point in every range, and no point of the range is nearer by more than half a
step. -/
theorem exists_nearest (value : ℚ) (snap : Bool) (horder : r.start ≤ r.stop) :
    ∃ x, r.nearest value snap = .ok x ∧ r.covers x = true ∧ ∀ y, r.covers y = true →
      |x - value| ≤ |y - value| + if snap then max r.step 0 / 2 else 0 := by
  have hinside := nearest_eq value horder
  obtain ⟨hlow, hhigh⟩ := nearest_mem horder hinside
  have hnear : ∀ y, r.covers y = true → |max r.start (min value r.stop) - value| ≤ |y - value| :=
    fun y hy => abs_nearest_sub_le hinside (covers_iff.1 hy).1 (covers_iff.1 hy).2
  by_cases hsnap : snap = true ∧ 0 < r.step
  · obtain ⟨rfl, hstep⟩ := hsnap
    have hsnapped := nearest_snap value hstep horder
    refine ⟨_, hsnapped, covers_iff.2 (nearest_mem horder hsnapped), fun y hy => ?_⟩
    have hmoved := abs_min_round_sub_le hstep hlow hhigh
    rw [if_pos rfl, max_eq_left hstep.le]
    calc _ ≤ _ + |max r.start (min value r.stop) - value| := abs_sub_le _ _ _
      _ ≤ r.step / 2 + |y - value| := add_le_add hmoved (hnear y hy)
      _ = |y - value| + r.step / 2 := add_comm _ _
  · have hplain : r.nearest value snap = r.nearest value false := by
      unfold nearest
      rw [Scalar.clamp_eq value horder]
      refine if_neg fun hboth => hsnap ?_
      exact (Bool.and_eq_true_iff.1 hboth).imp_right Scalar.zero_lt_iff.1
    refine ⟨_, hplain.trans hinside, covers_iff.2 ⟨hlow, hhigh⟩, fun y hy => ?_⟩
    have hmore : 0 ≤ if snap then max r.step 0 / 2 else 0 := by
      split
      · exact div_nonneg (le_max_right _ _) (by norm_num)
      · exact le_rfl
    linarith [hnear y hy]

end Range

namespace Ranges

/-! ## Going through the ranges -/

/-- The point of one of the ranges that is nearer to a value than those of the ranges before, and
as near as those of the ranges after. -/
def Chosen (value : ℚ) (snap : Bool) (rs : List (Range ℚ)) (x : ℚ) : Prop :=
  ∃ before r after, rs = before ++ r :: after ∧ r.nearest value snap = .ok x ∧
    (∀ q ∈ before, ∀ y, q.nearest value snap = .ok y → |x - value| < |y - value|) ∧
    ∀ q ∈ after, ∀ y, q.nearest value snap = .ok y → |x - value| ≤ |y - value|

variable {value : ℚ} {snap : Bool} {rs : List (Range ℚ)} {x : ℚ}

theorem Chosen.cons {r : Range ℚ} {c : ℚ} (h : Chosen value snap rs x)
    (hc : r.nearest value snap = .ok c) (hfar : |x - value| < |c - value|) :
    Chosen value snap (r :: rs) x := by
  obtain ⟨before, q, after, rfl, hx, hbefore, hafter⟩ := h
  refine ⟨r :: before, q, after, rfl, hx, List.forall_mem_cons.2 ⟨fun y hy => ?_, hbefore⟩, hafter⟩
  rw [hc] at hy
  cases hy
  exact hfar

/-- None of the points is nearer. -/
theorem Chosen.le (h : Chosen value snap rs x) {q : Range ℚ} (hq : q ∈ rs) {y : ℚ}
    (hy : q.nearest value snap = .ok y) : |x - value| ≤ |y - value| := by
  obtain ⟨before, r, after, rfl, hx, hbefore, hafter⟩ := h
  rcases List.mem_append.1 hq with hq | hq
  · exact (hbefore q hq y hy).le
  · rcases List.mem_cons.1 hq with rfl | hq
    · rw [hx] at hy
      cases hy
      exact le_rfl
    · exact hafter q hq y hy

theorem clipFrom_none_cons {r : Range ℚ} {c : ℚ} (hc : r.nearest value snap = .ok c) (best : ℚ) :
    clipFrom value snap best none (r :: rs) = clipFrom value snap c (some |c - value|) rs := by
  rw [clipFrom, hc]
  rfl

theorem clipFrom_some_cons {r : Range ℚ} {c : ℚ} (hc : r.nearest value snap = .ok c)
    (best distance : ℚ) : clipFrom value snap best (some distance) (r :: rs) =
      if |c - value| < distance then clipFrom value snap c (some |c - value|) rs
      else clipFrom value snap best (some distance) rs := by
  rw [clipFrom, hc]
  show (if decide (|c - value| < distance) = true then _ else _) = _
  simp only [decide_eq_true_eq]
  rfl

/-- The nearest point so far is kept, unless there is a nearer one in the ranges that are left. -/
theorem clipFrom_cases (horder : ∀ r ∈ rs, r.start ≤ r.stop) (best : ℚ) :
    ∃ x, clipFrom value snap best (some |best - value|) rs = .ok x ∧
      ((x = best ∧ ∀ r ∈ rs, ∀ y, r.nearest value snap = .ok y →
          |best - value| ≤ |y - value|) ∨
        (Chosen value snap rs x ∧ |x - value| < |best - value|)) := by
  induction rs generalizing best with
  | nil => exact ⟨best, rfl, .inl ⟨rfl, nofun⟩⟩
  | cons r rest ih =>
    obtain ⟨hr, hrest⟩ := List.forall_mem_cons.1 horder
    obtain ⟨c, hc, -⟩ := r.exists_nearest value snap hr
    have hone : ∀ {d : ℚ}, d ≤ |c - value| → ∀ y, r.nearest value snap = .ok y →
        d ≤ |y - value| := by
      intro d hd y hy
      rw [hc] at hy
      cases hy
      exact hd
    rw [clipFrom_some_cons hc]
    by_cases hcloser : |c - value| < |best - value|
    · obtain ⟨x, hx, hcases⟩ := ih hrest c
      refine ⟨x, (if_pos hcloser).trans hx, .inr ?_⟩
      rcases hcases with ⟨rfl, hle⟩ | ⟨hchosen, hlt⟩
      · exact ⟨⟨[], r, rest, rfl, hc, nofun, hle⟩, hcloser⟩
      · exact ⟨hchosen.cons hc hlt, hlt.trans hcloser⟩
    · obtain ⟨x, hx, hcases⟩ := ih hrest best
      have hfar : |best - value| ≤ |c - value| := le_of_not_gt hcloser
      refine ⟨x, (if_neg hcloser).trans hx, hcases.imp ?_ ?_⟩
      · rintro ⟨rfl, hle⟩
        exact ⟨rfl, List.forall_mem_cons.2 ⟨hone hfar, hle⟩⟩
      · rintro ⟨hchosen, hlt⟩
        exact ⟨hchosen.cons hc (hlt.trans_le hfar), hlt⟩

theorem exists_clip_chosen {r : Ranges ℚ} (hne : r.items ≠ [])
    (horder : ∀ q ∈ r.items, q.start ≤ q.stop) (value : ℚ) (snap : Bool) :
    ∃ x, r.clip value snap = .ok x ∧ Chosen value snap r.items x := by
  unfold clip
  cases hitems : r.items with
  | nil => exact absurd hitems hne
  | cons first rest =>
    rw [hitems] at horder
    obtain ⟨hfirst, hrest⟩ := List.forall_mem_cons.1 horder
    obtain ⟨c, hc, -⟩ := first.exists_nearest value snap hfirst
    obtain ⟨x, hx, hcases⟩ := clipFrom_cases hrest c
    refine ⟨x, (clipFrom_none_cons hc first.start).trans hx, ?_⟩
    rcases hcases with ⟨rfl, hle⟩ | ⟨hchosen, hlt⟩
    · exact ⟨[], first, rest, rfl, hc, nofun, hle⟩
    · exact hchosen.cons hc hlt

/-- What is chosen is covered, and up to half a step no covered point is nearer. -/
theorem Chosen.covers_and_le (h : Chosen value snap rs x) (horder : ∀ r ∈ rs, r.start ≤ r.stop) :
    (∃ q ∈ rs, q.covers x = true) ∧ ∀ q ∈ rs, ∀ y, q.covers y = true →
      |x - value| ≤ |y - value| + if snap then max q.step 0 / 2 else 0 := by
  constructor
  · obtain ⟨before, q, after, rfl, hx, -, -⟩ := h
    have hq : q ∈ before ++ q :: after := List.mem_append_right _ List.mem_cons_self
    exact ⟨q, hq, Range.covers_iff.2 (Range.nearest_mem (horder q hq) hx)⟩
  · intro q hq y hy
    obtain ⟨c, hc, -, hnear⟩ := q.exists_nearest value snap (horder q hq)
    exact (h.le hq hc).trans (hnear y hy)

/-! ## The nearest point -/

theorem contains_iff {r : Ranges ℚ} {v : ℚ} :
    r.contains v = true ↔ ∃ q ∈ r.items, q.covers v = true :=
  List.any_eq_true

/-- A point that is covered, and no covered point is nearer to the value. -/
structure IsNearest (r : Ranges ℚ) (value x : ℚ) : Prop where
  covered : r.contains x = true
  least : ∀ y, r.contains y = true → |x - value| ≤ |y - value|

/-- If one point is no farther from a value than a greater one, half way between them is not below
the value. -/
theorem two_mul_le_add {x y v : ℚ} (hlt : y < x) (h : |x - v| ≤ |y - v|) : x + y ≤ 2 * v := by
  have hsq := sq_le_sq.2 h
  nlinarith

variable {r : Ranges ℚ}

/-- The nearest points of greater values are greater. -/
theorem IsNearest.le_of_lt {v w x y : ℚ} (hx : r.IsNearest v x) (hy : r.IsNearest w y)
    (h : v < w) : x ≤ y := by
  by_contra hnot
  have hlt : y < x := lt_of_not_ge hnot
  have hlow : x + y ≤ 2 * v := two_mul_le_add hlt (hx.least y hy.covered)
  have hhigh : -y + -x ≤ 2 * -w := by
    refine two_mul_le_add (neg_lt_neg hlt) ?_
    rw [neg_sub_neg, neg_sub_neg, abs_sub_comm w y, abs_sub_comm w x]
    exact hy.least x hx.covered
  linarith

/-- A value that is covered is its own nearest point, and only such a value is. -/
theorem IsNearest.eq_iff (h : r.IsNearest value x) : x = value ↔ r.contains value = true := by
  constructor
  · rintro rfl
    exact h.covered
  · intro hcovered
    have hle := h.least value hcovered
    rw [sub_self, abs_zero] at hle
    exact sub_eq_zero.1 (abs_nonpos_iff.1 hle)

/-- The point that is chosen without steps is nearest, and nearer than all points of the ranges
before its own. -/
theorem Chosen.isNearest (h : Chosen value false r.items x)
    (horder : ∀ q ∈ r.items, q.start ≤ q.stop) :
    r.IsNearest value x ∧ ∃ before q after, r.items = before ++ q :: after ∧
      q.covers x = true ∧ ∀ p ∈ before, ∀ y, p.covers y = true → |x - value| < |y - value| := by
  obtain ⟨hcovered, hle⟩ := h.covers_and_le horder
  refine ⟨⟨contains_iff.2 hcovered, fun y hy => ?_⟩, ?_⟩
  · obtain ⟨q, hq, hy⟩ := contains_iff.1 hy
    exact (hle q hq y hy).trans_eq (add_zero _)
  · obtain ⟨before, q, after, hitems, hx, hbefore, -⟩ := h
    rw [hitems, List.forall_mem_append, List.forall_mem_cons] at horder
    obtain ⟨hbeforeorder, hqorder, -⟩ := horder
    refine ⟨before, q, after, hitems, Range.covers_iff.2 (Range.nearest_mem hqorder hx), ?_⟩
    intro p hp y hy
    obtain ⟨c, hc, -, hnear⟩ := p.exists_nearest value false (hbeforeorder p hp)
    exact (hbefore p hp c hc).trans_le ((hnear y hy).trans_eq (add_zero _))

/-- Where a value is clipped to, if there are ranges and each of them has its ends in order.
Without steps it is the nearest covered point, of two such points the one in the earlier range;
so a value that is covered stays, and of greater values greater ones come out.  With steps it is
still a covered point, and no farther away than the nearest ones by more than half a step of the
range in which any of these is. -/
theorem clip_isNearest (hne : r.items ≠ []) (horder : ∀ q ∈ r.items, q.start ≤ q.stop) :
    (∀ v, ∃ x, r.clip v false = .ok x ∧ r.IsNearest v x ∧
      ∃ before q after, r.items = before ++ q :: after ∧ q.covers x = true ∧
        ∀ p ∈ before, ∀ y, p.covers y = true → |x - v| < |y - v|) ∧
    (∀ v x, r.clip v false = .ok x → (x = v ↔ r.contains v = true)) ∧
    (∀ v x, r.clip v false = .ok x → r.clip x false = .ok x) ∧
    (∀ v w x y, v ≤ w → r.clip v false = .ok x → r.clip w false = .ok y → x ≤ y) ∧
    ∀ v, ∃ x, r.clip v true = .ok x ∧ r.contains x = true ∧
      ∀ q ∈ r.items, ∀ y, q.covers y = true → r.IsNearest v y →
        |x - v| ≤ |y - v| + max q.step 0 / 2 := by
  have hnearest : ∀ v x, r.clip v false = .ok x → r.IsNearest v x := by
    intro v x hx
    obtain ⟨x', hx', hchosen⟩ := exists_clip_chosen hne horder v false
    cases hx.symm.trans hx'
    exact (hchosen.isNearest horder).1
  refine ⟨fun v => ?_, fun v x hx => (hnearest v x hx).eq_iff, fun v x hx => ?_,
    fun v w x y hle hx hy => ?_, fun v => ?_⟩
  · obtain ⟨x, hx, hchosen⟩ := exists_clip_chosen hne horder v false
    exact ⟨x, hx, hchosen.isNearest horder⟩
  · obtain ⟨x', hx', -⟩ := exists_clip_chosen hne horder x false
    have hsame : x' = x := (hnearest x x' hx').eq_iff.2 (hnearest v x hx).covered
    rw [hx', hsame]
  · rcases hle.eq_or_lt with rfl | hlt
    · cases hx.symm.trans hy
      exact le_rfl
    · exact (hnearest v x hx).le_of_lt (hnearest w y hy) hlt
  · obtain ⟨x, hx, hchosen⟩ := exists_clip_chosen hne horder v true
    obtain ⟨hcovered, hle⟩ := hchosen.covers_and_le horder
    exact ⟨x, hx, contains_iff.2 hcovered, fun q hq y hy _ => hle q hq y hy⟩

/-- Two ranges that are out of order, with a gap that the value is in the middle of: the one that
is listed first wins. -/
theorem clip_in_gap :
    let r : Ranges ℚ := ⟨[⟨20, 30, 0⟩, ⟨0, 10, 2⟩]⟩
    r.items ≠ [] ∧ (∀ q ∈ r.items, q.start ≤ q.stop) ∧ r.clip 15 false = .ok 20 ∧
      r.IsNearest 15 20 := by
  intro r
  have hne : r.items ≠ [] := List.cons_ne_nil _ _
  have horder : ∀ q ∈ r.items, q.start ≤ q.stop := by decide +kernel
  have hclip : r.clip 15 false = .ok 20 := by decide +kernel
  obtain ⟨x, hx, hnearest, -⟩ := (clip_isNearest hne horder).1 15
  cases hclip.symm.trans hx
  exact ⟨hne, horder, hclip, hnearest⟩

end Ranges

end SoftRadio
