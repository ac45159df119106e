import SoftRadio.Proofs.Extended
import SoftRadio.Proofs.Frontend.Settings

/-!
# Tuning by hand, infinities included

A frequency for the oscillator or for the mixer that is out of range is clipped to the near end, as
long as its distance from there is a number.  Infinities have no such distance: whichever of them
is asked for, the start of the range is what comes out.  So below the range all is well, and above
it all but infinity itself.

* `Range.nearest_extended`: finite numbers go where they go in exact arithmetic.
* `Ranges.clip_extended_of_not_isFinite`: what is not finite goes to the start.
* `Range.EndsAt`: where numbers beyond the ends go; `Ranges.exists_endsAt`.
* `tune_manual_ends`: which requests are accepted, and where a frequency beyond the ends leads;
  `tune_manual_infinity`: infinity leads to the far end.
-/

namespace SoftRadio

open Extended (finite)

/-! ## Clipping to one range -/

section

variable {α : Type} [Scalar α]

theorem Range.exists_nearest_of_le {r : Range α} (h : Scalar.le r.start r.stop = true) (value : α)
    (snap : Bool) : ∃ c, r.nearest value snap = .ok c := by
  unfold nearest Scalar.clamp
  rw [if_pos h]
  exact ⟨_, (apply_ite Except.ok _ _ _).symm⟩

/-- One range leaves no choice, but its point is taken only if it is at some distance. -/
theorem Ranges.clip_eq_of_nearest {r : Range α} {value c : α} {snap : Bool}
    (h : r.nearest value snap = .ok c) : (Ranges.mk [r]).clip value snap =
      .ok (if Scalar.isFinite (Scalar.abs (c - value)) = true then c else r.start) := by
  show clipFrom value snap r.start none [r] = _
  rw [clipFrom, h]
  exact (apply_ite Except.ok _ _ _).symm

end

/-- The same range for numbers that may be infinite. -/
def Range.extended (r : Range ℚ) : Range Extended :=
  ⟨finite r.start, finite r.stop, finite r.step⟩

variable {r : Range ℚ}

/-- Finite numbers go where they go in exact arithmetic. -/
theorem Range.nearest_extended (r : Range ℚ) (v : ℚ) (snap : Bool) :
    r.extended.nearest (finite v) snap = finite <$> r.nearest v snap := by
  unfold nearest extended
  dsimp only
  rw [Extended.clamp_finite]
  cases Scalar.clamp v r.start r.stop with
  | error f => rfl
  | ok inside =>
    show (if (snap && Scalar.lt (Scalar.ofInt 0) r.step) = true then
        .ok (Scalar.min (finite r.start + Scalar.round
          ((finite inside - finite r.start) / finite r.step) * finite r.step) (finite r.stop))
      else .ok (finite inside)) =
        finite <$> if (snap && Scalar.lt (Scalar.ofInt 0) r.step) = true then
          .ok (Scalar.min (r.start + Scalar.round ((inside - r.start) / r.step) * r.step) r.stop)
        else (.ok inside : Except Fault ℚ)
    by_cases hsnap : (snap && Scalar.lt (Scalar.ofInt 0) r.step) = true
    · have hstep : r.step ≠ 0 :=
        (Scalar.zero_lt_iff.1 (Bool.and_eq_true_iff.1 hsnap).2).ne'
      rw [if_pos hsnap, if_pos hsnap, Extended.finite_sub, Extended.finite_div hstep,
        Extended.round_finite, Extended.finite_mul, Extended.finite_add, Extended.min_finite]
      rfl
    · rw [if_neg hsnap, if_neg hsnap]
      rfl

theorem Ranges.clip_extended_finite {v c : ℚ} {snap : Bool} (h : r.nearest v snap = .ok c) :
    (Ranges.mk [r.extended]).clip (finite v) snap = .ok (finite c) := by
  have hc : r.extended.nearest (finite v) snap = .ok (finite c) := by
    rw [Range.nearest_extended, h]
    rfl
  rw [clip_eq_of_nearest hc, Extended.finite_sub, Extended.abs_finite, Extended.isFinite_finite,
    if_pos rfl]

/-- What is not finite goes to the start of the range. -/
theorem Ranges.clip_extended_of_not_isFinite {x : Extended} (horder : r.start ≤ r.stop)
    (h : Scalar.isFinite x = false) (snap : Bool) :
    (Ranges.mk [r.extended]).clip x snap = .ok (finite r.start) := by
  have hle : Scalar.le r.extended.start r.extended.stop = true := decide_eq_true horder
  obtain ⟨c, hc⟩ := Range.exists_nearest_of_le hle x snap
  rw [clip_eq_of_nearest hc, if_neg (by rw [Extended.isFinite_abs_sub h]; decide)]
  rfl

/-- Where a range leads what is beyond its ends: to the near end, but infinity to the start. -/
structure Range.EndsAt (r : Range ℚ) (x c : Extended) : Prop where
  high : Scalar.le (finite r.stop) x = true → (c = finite r.stop ↔ x ≠ Scalar.infinity)
  low : Scalar.le x (finite r.start) = true → c = finite r.start
  infinity : x = Scalar.infinity → c = finite r.start

theorem Range.exists_nearest_ends (horder : r.start ≤ r.stop) (v : ℚ) :
    ∃ c, r.nearest v false = .ok c ∧ (r.stop ≤ v → c = r.stop) ∧ (v ≤ r.start → c = r.start) := by
  refine ⟨_, nearest_eq v horder, fun hle => ?_, fun hle => ?_⟩
  · rw [min_eq_right hle, max_eq_right horder]
  · rw [min_eq_left (hle.trans horder), max_eq_left hle]

/-- A range whose ends are reached from beyond by all finite numbers. -/
theorem Ranges.exists_endsAt {snap : Bool} (horder : r.start < r.stop)
    (hends : ∀ v, ∃ c, r.nearest v snap = .ok c ∧ (r.stop ≤ v → c = r.stop) ∧
      (v ≤ r.start → c = r.start)) (x : Extended) :
    ∃ c, (Ranges.mk [r.extended]).clip x snap = .ok c ∧ r.EndsAt x c := by
  cases x with
  | finite v =>
    obtain ⟨c, hc, hhigh, hlow⟩ := hends v
    refine ⟨_, clip_extended_finite hc, ⟨fun hle => ⟨fun _ => nofun, fun _ => ?_⟩, fun hle => ?_,
      nofun⟩⟩
    · rw [hhigh (of_decide_eq_true hle)]
    · rw [hlow (of_decide_eq_true hle)]
  | infinite negative =>
    refine ⟨_, clip_extended_of_not_isFinite horder.le rfl snap, ⟨fun hle => ?_, fun _ => rfl,
      fun _ => rfl⟩⟩
    cases negative with
    | false =>
      exact ⟨fun hsame => absurd (Extended.finite.inj hsame) horder.ne, fun h => absurd rfl h⟩
    | true => cases hle
  | nan =>
    exact ⟨_, clip_extended_of_not_isFinite horder.le rfl snap, ⟨nofun, nofun, nofun⟩⟩

/-! ## Tuning by hand -/

namespace Frontend

/-- The range of the oscillator. -/
def rfSpan : Range ℚ := ⟨rfMin, rfMax, rfStep⟩

/-- The range of the mixer. -/
def dspSpan (m : ℚ) : Range ℚ := ⟨-(m / 2), m / 2, 0⟩

theorem rfRange_eq : (rfRange : Ranges Extended) = ⟨[rfSpan.extended]⟩ := rfl

theorem dspRange_eq (m : ℚ) : dspRange (finite m) = ⟨[(dspSpan m).extended]⟩ := by
  have htwo : ((2 : ℤ) : ℚ) ≠ 0 := by norm_num
  unfold dspRange Ranges.single
  rw [Extended.neg_finite, Extended.ofInt_eq, Extended.ofInt_eq, Extended.finite_div htwo,
    Extended.finite_div htwo, neg_div]
  norm_num [dspSpan, Range.extended]

/-- The oscillator, on its grid or not. -/
theorem exists_rf_endsAt (x : Extended) (snap : Bool) :
    ∃ c, rfRange.clip x snap = .ok c ∧ rfSpan.EndsAt x c := by
  have horder : rfSpan.start < rfSpan.stop := by
    show ((70000000 : ℤ) : ℚ) < ((6000000000 : ℤ) : ℚ)
    norm_num
  rw [rfRange_eq]
  refine Ranges.exists_endsAt horder (fun v => ?_) x
  cases snap with
  | true =>
    obtain ⟨rf, hclip, hnext⟩ := exists_clip_rfRange v
    exact ⟨rf, (Ranges.clip_single _ _ _).symm.trans hclip, hnext.of_stop_le, hnext.of_le_start⟩
  | false => exact Range.exists_nearest_ends horder.le v

theorem exists_dsp_endsAt {m : ℚ} (hm : 0 < m) (x : Extended) :
    ∃ c, (dspRange (finite m)).clip x false = .ok c ∧ (dspSpan m).EndsAt x c := by
  have horder : (dspSpan m).start < (dspSpan m).stop := by
    show -(m / 2) < m / 2
    linarith
  rw [dspRange_eq]
  exact Ranges.exists_endsAt horder (Range.exists_nearest_ends horder.le) x

variable {fe fe' : Frontend Extended} {request : TuneRequest Extended}
  {result : TuneResult Extended} {m : ℚ}

theorem exists_actualRf_extended (fe : Frontend Extended) (request : TuneRequest Extended) :
    ∃ rf, fe.actualRf request = .ok rf ∧
      (request.rfPolicy = .manual → rfSpan.EndsAt request.rf rf) := by
  unfold actualRf targetRf
  cases request.rfPolicy with
  | keep => exact ⟨fe.rf, rfl, nofun⟩
  | auto =>
    obtain ⟨rf, hrf, -⟩ := exists_rf_endsAt request.target true
    exact ⟨rf, hrf, nofun⟩
  | manual =>
    obtain ⟨rf, hrf, hends⟩ := exists_rf_endsAt request.rf true
    exact ⟨rf, hrf, fun _ => hends⟩

/-- A request is refused for its target, if that is not finite, and for nothing else. -/
theorem exists_tune_iff (hm : 0 < m) :
    (∃ result fe', fe.tune request (finite m) = .ok (result, fe')) ↔
      Scalar.isFinite request.target = true := by
  constructor
  · rintro ⟨result, fe', h⟩
    by_contra hnot
    unfold tune at h
    rw [if_pos (by simpa using hnot)] at h
    cases h
  · intro htarget
    obtain ⟨clipped, hclipped, -⟩ := exists_rf_endsAt (fe.targetRf request) false
    obtain ⟨rf, hrf, -⟩ := exists_actualRf_extended fe request
    obtain ⟨dsp, hdsp, -⟩ := exists_dsp_endsAt hm (fe.targetDsp request rf)
    refine ⟨⟨clipped, fe.targetRf request, rf, fe.targetDsp request rf, dsp⟩,
      { fe with rf := rf, dsp := dsp }, ?_⟩
    unfold tune
    rw [if_neg (by rw [htarget]; decide)]
    exact bind_eq_ok_iff.2 ⟨clipped, hclipped, bind_eq_ok_iff.2 ⟨rf, hrf,
      bind_eq_ok_iff.2 ⟨dsp, hdsp, rfl⟩⟩⟩

/-- Where an accepted request leads the stages that it sets by hand. -/
theorem endsAt_of_tune (hm : 0 < m) (h : fe.tune request (finite m) = .ok (result, fe')) :
    (request.rfPolicy = .manual → rfSpan.EndsAt request.rf fe'.rf) ∧
      (request.dspPolicy = .manual → (dspSpan m).EndsAt request.dsp fe'.dsp) := by
  obtain ⟨hactual, hmixed, rfl⟩ := eq_of_tune h
  constructor
  · obtain ⟨rf, hrf, hends⟩ := exists_actualRf_extended fe request
    cases hactual.symm.trans hrf
    exact hends
  · intro hmanual
    unfold targetDsp at hmixed
    rw [hmanual] at hmixed
    obtain ⟨dsp, hdsp, hends⟩ := exists_dsp_endsAt hm request.dsp
    cases hmixed.symm.trans hdsp
    exact hends

/-- Whatever a front end was set to before, a request is accepted if its target is finite, and a
stage that it sets by hand to a frequency at an end of its range or beyond comes to lie at that
end, but for infinity: by that it comes to lie at the far end. -/
theorem tune_manual_ends (fe : Frontend Extended) (request : TuneRequest Extended) (hm : 0 < m) :
    ((∃ result fe', fe.tune request (finite m) = .ok (result, fe')) ↔
      Scalar.isFinite request.target = true) ∧
    ∀ result fe', fe.tune request (finite m) = .ok (result, fe') →
      (request.rfPolicy = .manual →
        (Scalar.le rfMax request.rf = true → (fe'.rf = rfMax ↔ request.rf ≠ Scalar.infinity)) ∧
        (Scalar.le request.rf rfMin = true → fe'.rf = rfMin) ∧
        (request.rf = Scalar.infinity → fe'.rf = rfMin)) ∧
      (request.dspPolicy = .manual →
        (Scalar.le (finite (m / 2)) request.dsp = true →
          (fe'.dsp = finite (m / 2) ↔ request.dsp ≠ Scalar.infinity)) ∧
        (Scalar.le request.dsp (finite (-(m / 2))) = true → fe'.dsp = finite (-(m / 2))) ∧
        (request.dsp = Scalar.infinity → fe'.dsp = finite (-(m / 2)))) := by
  refine ⟨exists_tune_iff hm, fun result fe' h => ?_⟩
  obtain ⟨hrf, hdsp⟩ := endsAt_of_tune hm h
  exact ⟨fun hmanual => ⟨(hrf hmanual).high, (hrf hmanual).low, (hrf hmanual).infinity⟩,
    fun hmanual => ⟨(hdsp hmanual).high, (hdsp hmanual).low, (hdsp hmanual).infinity⟩⟩

/-- A request for both stages by hand. -/
def byHand {α : Type} (target rf dsp : α) : TuneRequest α :=
  ⟨target, .manual, rf, .manual, dsp, Address.empty⟩

/-- The oscillator is asked for more than it can do, and the mixer for less than anything. -/
theorem tune_manual_beyond : 0 < (32000000 : ℚ) ∧ ∃ result fe',
    tune (initial .rx (finite 32000000))
      (byHand (finite 1000000000) (finite 7000000000) (.infinite true)) (finite 32000000) =
        .ok (result, fe') ∧
      fe'.rf = rfMax ∧ fe'.dsp = finite (-(32000000 / 2)) := by
  have hm : 0 < (32000000 : ℚ) := by norm_num
  obtain ⟨haccepted, hends⟩ := tune_manual_ends (initial .rx (finite 32000000))
    (byHand (finite 1000000000) (finite 7000000000) (.infinite true)) hm
  obtain ⟨result, fe', h⟩ := haccepted.2 rfl
  obtain ⟨hrf, hdsp⟩ := hends result fe' h
  exact ⟨hm, result, fe', h, ((hrf rfl).1 (by decide +kernel)).2 nofun, (hdsp rfl).2.1 rfl⟩

/-- In double precision too both stages go to their far ends if they are asked for infinity. -/
theorem tune_manual_infinity :
    let clock : Float := Scalar.ofInt 32000000
    let request := byHand (Scalar.ofInt 1000000000) Scalar.infinity (Scalar.infinity : Float)
    Scalar.le rfMax request.rf = true ∧ Scalar.le (clock / Scalar.ofInt 2) request.dsp = true ∧
      ∃ result fe', tune (initial .rx clock) request clock = .ok (result, fe') ∧
        fe'.rf = rfMin ∧ fe'.rf ≠ rfMax ∧ fe'.dsp = -clock / Scalar.ofInt 2 ∧
        fe'.dsp ≠ clock / Scalar.ofInt 2 := by
  intro clock request
  refine ⟨by decide +kernel, by decide +kernel, ?_⟩
  have htuned : (fun r => (r.2.rf, r.2.dsp)) <$> tune (initial .rx clock) request clock =
      .ok (rfMin, -clock / Scalar.ofInt 2) := by decide +kernel
  obtain ⟨⟨result, fe'⟩, h, hends⟩ := map_eq_ok_iff.1 htuned
  obtain ⟨hrf, hdsp⟩ := Prod.mk.inj hends
  refine ⟨result, fe', h, hrf, ?_, hdsp, ?_⟩
  · rw [hrf]
    decide +kernel
  · rw [hdsp]
    decide +kernel

end Frontend

end SoftRadio
