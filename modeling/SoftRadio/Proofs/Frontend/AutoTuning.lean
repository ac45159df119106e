import Mathlib.Algebra.Order.Group.MinMax
import SoftRadio.Proofs.Frontend.Settings

/-!
# The mixer makes up the difference

A request that leaves the mixer to the radio is met as well as it can be: wherever the oscillator
ends up, the mixer shifts by what is left to the target, in the sense of its direction, and by no
more than half of the clock rate.

* `signed`: what a shift of the mixer adds to the frequency.
* `exists_tune`: a request is never refused; `clip_dspRange`: where the mixer ends up.
* `freq_of_auto`: the frequency is the target, moved as little as can be;
  `abs_freq_sub_le_of_auto`: no other shift comes nearer.
* `freq_eq_target`: the target is hit if the oscillator is left to the radio too.
* `tune_auto_after_settings`: all of it, after any settings.
-/

namespace SoftRadio

namespace Frontend

/-! ## The two senses of a shift -/

/-- What a shift of the mixer adds to the frequency. -/
def signed (dir : Direction) (shift : ℚ) : ℚ :=
  match dir with
  | .rx => -shift
  | .tx => shift

theorem signed_signed (dir : Direction) (shift : ℚ) : signed dir (signed dir shift) = shift := by
  cases dir with
  | rx => exact neg_neg shift
  | tx => rfl

theorem abs_signed (dir : Direction) (shift : ℚ) : |signed dir shift| = |shift| := by
  cases dir with
  | rx => exact abs_neg shift
  | tx => rfl

/-- Bounds that are opposite numbers hold an opposite number as they hold the number. -/
theorem max_min_signed {bound : ℚ} (hbound : 0 ≤ bound) (dir : Direction) (shift : ℚ) :
    max (-bound) (min (signed dir shift) bound) = signed dir (max (-bound) (min shift bound)) := by
  cases dir with
  | rx =>
    show max (-bound) (min (-shift) bound) = -max (-bound) (min shift bound)
    rw [max_min_distrib_left, max_eq_right (neg_le_self hbound), max_neg_neg, ← min_neg_neg,
      neg_neg, min_comm bound shift, min_comm]
  | tx => rfl

theorem freq_eq (fe : Frontend ℚ) : fe.freq = fe.rf + signed fe.dir fe.dsp := by
  unfold freq
  cases fe.dir with
  | rx => exact sub_eq_add_neg fe.rf fe.dsp
  | tx => rfl

theorem targetDsp_of_auto {request : TuneRequest ℚ} (fe : Frontend ℚ)
    (hauto : request.dspPolicy = .auto) (rf : ℚ) :
    fe.targetDsp request rf = signed fe.dir (request.target - rf) := by
  unfold targetDsp
  rw [hauto]
  cases fe.dir with
  | rx => exact (neg_sub request.target rf).symm
  | tx => rfl

/-! ## Where a request leads -/

variable {fe fe' : Frontend ℚ} {request : TuneRequest ℚ} {result : TuneResult ℚ} {clock : ℚ}

theorem clip_dspRange (hclock : 0 < clock) (dsp : ℚ) :
    (dspRange clock).clip dsp false = .ok (max (-(clock / 2)) (min dsp (clock / 2))) := by
  have hhalf : -clock / 2 ≤ clock / 2 := by linarith
  rw [← neg_div]
  exact (Ranges.clip_single _ _ _).trans (Range.nearest_eq dsp hhalf)

theorem exists_actualRf (fe : Frontend ℚ) (request : TuneRequest ℚ) :
    ∃ rf, fe.actualRf request = .ok rf := by
  unfold actualRf
  split
  · exact ⟨fe.rf, rfl⟩
  · obtain ⟨rf, hclip, -⟩ := exists_clip_rfRange (fe.targetRf request)
    exact ⟨rf, hclip⟩

/-- A request is never refused. -/
theorem exists_tune (fe : Frontend ℚ) (request : TuneRequest ℚ) (hclock : 0 < clock) :
    ∃ result fe', fe.tune request clock = .ok (result, fe') := by
  obtain ⟨rf, hrf⟩ := exists_actualRf fe request
  have hclipped := (Ranges.clip_single ⟨rfMin, rfMax, rfStep⟩ (fe.targetRf request) false).trans
    (Range.nearest_eq _ rfMin_le_rfMax)
  exact ⟨_, _, bind_eq_ok_iff.2 ⟨_, hclipped, bind_eq_ok_iff.2 ⟨rf, hrf,
    bind_eq_ok_iff.2 ⟨_, clip_dspRange hclock _, rfl⟩⟩⟩⟩

/-- If the mixer is left to the radio, the frequency is the target, moved as little as can be. -/
theorem freq_of_auto (hclock : 0 < clock) (hauto : request.dspPolicy = .auto)
    (h : fe.tune request clock = .ok (result, fe')) :
    fe'.freq = max (fe'.rf - clock / 2) (min request.target (fe'.rf + clock / 2)) := by
  obtain ⟨-, hclip, rfl⟩ := eq_of_tune h
  have hdsp := Except.ok.inj (hclip.symm.trans (clip_dspRange hclock _))
  rw [targetDsp_of_auto fe hauto, max_min_signed (by linarith)] at hdsp
  rw [freq_eq]
  dsimp only
  rw [hdsp, signed_signed, ← max_add_add_left, ← min_add_add_left, add_sub_cancel,
    ← sub_eq_add_neg]

/-- The frequencies that the mixer can make of one of the oscillator's. -/
theorem freq_mem_of_abs_dsp_le {dsp : ℚ} (fe : Frontend ℚ) (h : |dsp| ≤ clock / 2) :
    fe.rf - clock / 2 ≤ freq { fe with dsp := dsp } ∧
      freq { fe with dsp := dsp } ≤ fe.rf + clock / 2 := by
  rw [← abs_signed fe.dir] at h
  obtain ⟨hlow, hhigh⟩ := abs_le.1 h
  rw [freq_eq]
  dsimp only
  constructor
  · linarith
  · linarith

/-- No other shift of the mixer comes nearer to the target. -/
theorem abs_freq_sub_le_of_auto (hclock : 0 < clock) (hauto : request.dspPolicy = .auto)
    (h : fe.tune request clock = .ok (result, fe')) {dsp : ℚ} (hdsp : |dsp| ≤ clock / 2) :
    |fe'.freq - request.target| ≤ |freq { fe' with dsp := dsp } - request.target| := by
  obtain ⟨hlow, hhigh⟩ := freq_mem_of_abs_dsp_le fe' hdsp
  have hnearest := Range.nearest_eq (r := ⟨fe'.rf - clock / 2, fe'.rf + clock / 2, 0⟩)
    request.target (hlow.trans hhigh)
  rw [← freq_of_auto hclock hauto h] at hnearest
  exact Range.abs_nearest_sub_le hnearest hlow hhigh

/-- If the oscillator is left to the radio too, and half of the clock rate reaches over half a
step, every target in the range is hit. -/
theorem freq_eq_target (hclock : rfStep ≤ clock) (hauto : request.dspPolicy = .auto)
    (hrf : request.rfPolicy = .auto) (htarget : (freqRange clock).contains request.target = true)
    (h : fe.tune request clock = .ok (result, fe')) : fe'.freq = request.target := by
  have hpos : 0 < clock := zero_lt_rfStep.trans_le hclock
  obtain ⟨hlow, hhigh⟩ := mem_freqRange_iff.1 htarget
  obtain ⟨hactual, -, hfe'⟩ := eq_of_tune h
  have hasked : fe.actualRf request = rfRange.clip request.target true := by
    unfold actualRf targetRf
    rw [hrf]
    rfl
  have hnext : Range.NextStep ⟨rfMin, rfMax, rfStep⟩ request.target fe'.rf := by
    obtain ⟨rf, hclip, hnext⟩ := exists_clip_rfRange request.target
    cases hclip.symm.trans (hasked.symm.trans hactual)
    exact hfe' ▸ hnext
  have hreach : fe'.rf - clock / 2 ≤ request.target ∧ request.target ≤ fe'.rf + clock / 2 := by
    rcases le_total request.target rfMin with hbelow | habove
    · rw [hnext.of_le_start hbelow]
      exact ⟨hlow, by linarith⟩
    · rcases le_total request.target rfMax with hinside | hbeyond
      · obtain ⟨hdown, hup⟩ := hnext.near habove hinside
        dsimp only at hdown hup
        exact ⟨by linarith, by linarith⟩
      · rw [hnext.of_stop_le hbeyond]
        exact ⟨by linarith, hhigh⟩
  rw [freq_of_auto hpos hauto h, min_eq_left hreach.2, max_eq_right hreach.1]

/-- After any settings, a request that leaves the mixer to the radio puts the oscillator on its
grid and leads as near to the target as the mixer can come from there, and right to it if the
oscillator is left to the radio too. -/
theorem tune_auto_after_settings (dir : Direction) (opening : ℚ) (settings : List (Setting ℚ))
    (hclock : 0 < clock) (hauto : request.dspPolicy = .auto) :
    ∃ result fe', tune (settings.foldl after (initial dir opening)) request clock =
        .ok (result, fe') ∧
      fe'.rf = result.actualRf ∧ OnGrid result.actualRf ∧ |fe'.dsp| ≤ clock / 2 ∧
      fe'.freq = max (result.actualRf - clock / 2)
        (min request.target (result.actualRf + clock / 2)) ∧
      (∀ dsp, |dsp| ≤ clock / 2 →
        |fe'.freq - request.target| ≤ |freq { fe' with dsp := dsp } - request.target|) ∧
      (rfStep ≤ clock → request.rfPolicy = .auto →
        (freqRange clock).contains request.target = true → fe'.freq = request.target) := by
  obtain ⟨result, fe', h⟩ := exists_tune (settings.foldl after (initial dir opening)) request hclock
  have hgrid := onGrid_foldl_after dir opening settings
  obtain ⟨hactual, -, hfe'⟩ := eq_of_tune h
  have hrf : fe'.rf = result.actualRf := by rw [hfe']
  obtain ⟨-, -, hdsp⟩ := tune_bounds hclock ⟨hgrid.low, hgrid.high⟩ h
  refine ⟨result, fe', h, hrf, onGrid_of_actualRf hgrid hactual, hdsp,
    hrf ▸ freq_of_auto hclock hauto h, fun dsp => abs_freq_sub_le_of_auto hclock hauto h,
    fun hstep hpolicy htarget => freq_eq_target hstep hauto hpolicy htarget h⟩

/-- A transmitter whose oscillator was put two megahertz off hits a target from there, and one that
is out of the mixer's reach is met as far as it goes. -/
theorem tune_auto_after_offset :
    let settings : List (Setting ℚ) := [.tuning (.withOffset 915000000 2000000) 32000000]
    let fe := settings.foldl after (initial .tx 32000000)
    let near : TuneRequest ℚ := .simple 2400000300
    let far : TuneRequest ℚ := { TuneRequest.simple 1000000000 with rfPolicy := .keep }
    (0 : ℚ) < 32000000 ∧ near.dspPolicy = .auto ∧ far.dspPolicy = .auto ∧
      (∃ result fe', fe.tune near 32000000 = .ok (result, fe') ∧ fe'.freq = 2400000300) ∧
      ∃ result fe', fe.tune far 32000000 = .ok (result, fe') ∧
        fe'.freq = max (result.actualRf - 32000000 / 2)
          (min 1000000000 (result.actualRf + 32000000 / 2)) := by
  intro settings fe near far
  have hclock : (0 : ℚ) < 32000000 := by norm_num
  have hnear : near.dspPolicy = .auto := rfl
  have hfar : far.dspPolicy = .auto := rfl
  obtain ⟨result, fe', htune, -, -, -, -, -, hhit⟩ :=
    tune_auto_after_settings .tx 32000000 settings hclock hnear
  obtain ⟨result', fe'', htune', -, -, -, hfreq, -, -⟩ :=
    tune_auto_after_settings .tx 32000000 settings hclock hfar
  have htarget : (freqRange 32000000).contains near.target = true := by decide +kernel
  exact ⟨hclock, hnear, hfar, ⟨result, fe', htune, hhit (by decide +kernel) rfl htarget⟩,
    result', fe'', htune', hfreq⟩

end Frontend

end SoftRadio
