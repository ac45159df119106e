import SoftRadio.Frontend
import SoftRadio.Proofs.Range

/-!
# The rate and the frequency of a front end

A front end is set against the clock rate that its board has at that moment: its sample rate
divides that rate by a whole number, and its mixer shifts by no more than half of it.  The clock
rate itself is not kept with the front end, so what comes of the settings under another clock rate
is a question apart.

* `Frontend.tuning`: rate, oscillator and mixer; the other settings keep it.
* `exists_of_setGain`: a gain changes the values of gain elements only; `eq_of_tune`: what a
  request changes.
* `exists_divisor_of_setRate`: what a rate is set to; `tune_bounds`: where a request leads.
* `SetAgainst`: the clock rates that a front end was set against.
* `divided_mem_rateRange_iff`: whether a rate lies in the range of another clock rate;
  `SetAgainst.freq_mem`: a frequency does if that clock rate is not lower.
-/

namespace SoftRadio

namespace Frontend

section

variable {α : Type} [Scalar α] {fe fe' : Frontend α}

/-- The rate, the oscillator and the mixer of a front end. -/
def tuning (fe : Frontend α) : α × α × α := (fe.rate, fe.rf, fe.dsp)

/-- The names and the ranges of gain elements, without their values. -/
def stages (gains : List (GainElement α)) : List (String × Range α) :=
  gains.map fun g => (g.name, g.range)

theorem exists_of_setTo {g g' : GainElement α} {gain : α} (h : GainElement.setTo g gain = .ok g') :
    ∃ value, g' = { g with value := value } := by
  obtain ⟨value, -, h⟩ := bind_eq_ok_iff.1 h
  exact ⟨value, (pure_eq_ok_iff.1 h).symm⟩

theorem stages_of_spread {gain : α} {gains gains' : List (GainElement α)}
    (h : spread gain gains = .ok gains') : stages gains' = stages gains := by
  induction gains generalizing gain gains' with
  | nil =>
    cases h
    rfl
  | cons g rest ih =>
    obtain ⟨g', hset, h⟩ := bind_eq_ok_iff.1 h
    obtain ⟨rest', hrest, h⟩ := bind_eq_ok_iff.1 h
    cases pure_eq_ok_iff.1 h
    obtain ⟨value, rfl⟩ := exists_of_setTo hset
    exact congrArg ((g.name, g.range) :: ·) (ih hrest)

omit [Scalar α] in
theorem stages_replaceElement {g : GainElement α} {gains : List (GainElement α)} {name : String}
    (h : gains.find? (·.name = name) = some g) (value : α) :
    stages (replaceElement { g with value := value } gains) = stages gains := by
  have hname : g.name = name := by simpa using List.find?_some h
  induction gains with
  | nil => cases h
  | cons first rest ih =>
    unfold replaceElement
    by_cases hfirst : first.name = name
    · rw [List.find?_cons_of_pos (by simpa using hfirst)] at h
      cases h
      rw [if_pos rfl]
      rfl
    · rw [List.find?_cons_of_neg (by simpa using hfirst)] at h
      rw [if_neg (by simpa [hname] using hfirst)]
      exact congrArg ((first.name, first.range) :: ·) (ih h)

/-- A gain changes nothing but the values of gain elements. -/
theorem exists_of_setGain {gain : α} {name : String} (h : fe.setGain gain name = .ok fe') :
    ∃ gains, stages gains = stages fe.gains ∧ fe' = { fe with gains := gains } := by
  unfold setGain at h
  split at h
  · cases h
  · split at h
    · obtain ⟨total, -, h⟩ := bind_eq_ok_iff.1 h
      obtain ⟨gains, hgains, h⟩ := bind_eq_ok_iff.1 h
      exact ⟨gains, stages_of_spread hgains, (pure_eq_ok_iff.1 h).symm⟩
    · obtain ⟨g, hg, h⟩ := bind_eq_ok_iff.1 h
      obtain ⟨g', hset, h⟩ := bind_eq_ok_iff.1 h
      obtain ⟨value, rfl⟩ := exists_of_setTo hset
      refine ⟨_, ?_, (pure_eq_ok_iff.1 h).symm⟩
      unfold element at hg
      split at hg
      next found hfind =>
        cases hg
        exact stages_replaceElement hfind value
      · cases hg

theorem exists_of_setRate {rate clock : α} (h : fe.setRate rate clock = .ok fe') :
    ∃ rate', fe' = { fe with rate := rate' } := by
  unfold setRate at h
  split at h
  · cases h
  · obtain ⟨clipped, -, h⟩ := bind_eq_ok_iff.1 h
    exact ⟨_, (pure_eq_ok_iff.1 h).symm⟩

omit [Scalar α] in
theorem exists_of_setAntenna {antenna : String} (h : fe.setAntenna antenna = .ok fe') :
    ∃ antenna', fe' = { fe with antenna := antenna' } := by
  unfold setAntenna at h
  split at h
  · cases h
    exact ⟨antenna, rfl⟩
  · cases h

theorem exists_of_setBandwidth {bandwidth : α} (h : fe.setBandwidth bandwidth = .ok fe') :
    ∃ bandwidth', fe' = { fe with bandwidth := bandwidth' } := by
  unfold setBandwidth at h
  split at h
  · cases h
  · obtain ⟨clipped, -, h⟩ := bind_eq_ok_iff.1 h
    exact ⟨clipped, (pure_eq_ok_iff.1 h).symm⟩

/-- A request changes the oscillator and the mixer, to what is reported of it. -/
theorem eq_of_tune {request : TuneRequest α} {clock : α} {result : TuneResult α}
    (h : fe.tune request clock = .ok (result, fe')) :
    fe.actualRf request = .ok result.actualRf ∧
      (dspRange clock).clip (fe.targetDsp request result.actualRf) false = .ok result.actualDsp ∧
      fe' = { fe with rf := result.actualRf, dsp := result.actualDsp } := by
  unfold tune at h
  split at h
  · cases h
  · obtain ⟨clippedRf, -, h⟩ := bind_eq_ok_iff.1 h
    obtain ⟨rf, hrf, h⟩ := bind_eq_ok_iff.1 h
    obtain ⟨dsp, hdsp, h⟩ := bind_eq_ok_iff.1 h
    cases pure_eq_ok_iff.1 h
    exact ⟨hrf, hdsp, rfl⟩

theorem tuning_of_setGain {gain : α} {name : String} (h : fe.setGain gain name = .ok fe') :
    fe'.tuning = fe.tuning := by
  obtain ⟨gains, -, rfl⟩ := exists_of_setGain h
  rfl

omit [Scalar α] in
theorem tuning_of_setAntenna {antenna : String} (h : fe.setAntenna antenna = .ok fe') :
    fe'.tuning = fe.tuning := by
  obtain ⟨antenna', rfl⟩ := exists_of_setAntenna h
  rfl

theorem tuning_of_setBandwidth {bandwidth : α} (h : fe.setBandwidth bandwidth = .ok fe') :
    fe'.tuning = fe.tuning := by
  obtain ⟨bandwidth', rfl⟩ := exists_of_setBandwidth h
  rfl

end

variable {fe fe' : Frontend ℚ} {clock : ℚ}

theorem rfMin_le_rfMax : (rfMin : ℚ) ≤ rfMax := by
  show ((70000000 : ℤ) : ℚ) ≤ ((6000000000 : ℤ) : ℚ)
  norm_num

/-! ## Setting against a clock rate -/

/-- A rate divides the clock rate by a whole number of at most 512. -/
theorem exists_divisor_of_setRate {rate : ℚ} (hclock : 0 < clock)
    (h : fe.setRate rate clock = .ok fe') :
    ∃ k : ℕ, 1 ≤ k ∧ k ≤ 512 ∧ fe' = { fe with rate := clock / k } := by
  unfold setRate at h
  split at h
  · cases h
  · obtain ⟨clipped, hclip, h⟩ := bind_eq_ok_iff.1 h
    cases pure_eq_ok_iff.1 h
    have horder : clock / 512 ≤ clock := by linarith
    obtain ⟨hlow, hhigh⟩ : clock / 512 ≤ clipped ∧ clipped ≤ clock :=
      Range.nearest_mem horder ((Ranges.clip_single _ _ _).symm.trans hclip)
    have hclipped : 0 < clipped := by linarith
    have hone : 1 ≤ clock / clipped := (one_le_div hclipped).2 hhigh
    have hmost : clock / clipped ≤ 512 := by
      rw [div_le_iff₀ hclipped]
      linarith
    obtain ⟨k, hk, hbelow, habove⟩ := Scalar.exists_round_eq (by linarith : 0 ≤ clock / clipped)
    have hk1 : 1 ≤ k := by
      have hpos : (0 : ℚ) < k := by linarith
      exact_mod_cast hpos
    have hk512 : k ≤ 512 := by
      have hlt : (k : ℚ) < 513 := by linarith
      exact Nat.le_of_lt_succ (by exact_mod_cast hlt)
    have hmax : Scalar.max (k : ℚ) (Scalar.ofInt 1) = k := by
      have hone : ((1 : ℤ) : ℚ) ≤ k := by exact_mod_cast hk1
      rw [Scalar.max_eq]
      exact max_eq_left hone
    exact ⟨k, hk1, hk512, by rw [hk, hmax]⟩

/-- The oscillator stays in its range, and the mixer shifts by half of the clock rate at most. -/
theorem tune_bounds {request : TuneRequest ℚ} {result : TuneResult ℚ} (hclock : 0 < clock)
    (hrf : rfMin ≤ fe.rf ∧ fe.rf ≤ rfMax) (h : fe.tune request clock = .ok (result, fe')) :
    fe'.rate = fe.rate ∧ (rfMin ≤ fe'.rf ∧ fe'.rf ≤ rfMax) ∧ |fe'.dsp| ≤ clock / 2 := by
  obtain ⟨hactual, hmixed, rfl⟩ := eq_of_tune h
  have hhalf : -clock / 2 ≤ clock / 2 := by linarith
  obtain ⟨hlow, hhigh⟩ : -clock / 2 ≤ result.actualDsp ∧ result.actualDsp ≤ clock / 2 :=
    Range.nearest_mem hhalf ((Ranges.clip_single _ _ _).symm.trans hmixed)
  refine ⟨rfl, ?_, abs_le.2 ⟨by linarith, hhigh⟩⟩
  show rfMin ≤ result.actualRf ∧ result.actualRf ≤ rfMax
  unfold actualRf at hactual
  split at hactual
  · rw [← Except.ok.inj hactual]
    exact hrf
  · exact Range.nearest_mem rfMin_le_rfMax ((Ranges.clip_single _ _ _).symm.trans hactual)

/-! ## Other clock rates -/

/-- A front end whose rate was set against one clock rate and that was tuned against another. -/
structure SetAgainst (fe : Frontend ℚ) (rated tuned : ℚ) : Prop where
  rate : ∃ k : ℕ, 1 ≤ k ∧ k ≤ 512 ∧ fe.rate = rated / k
  rf : rfMin ≤ fe.rf ∧ fe.rf ≤ rfMax
  dsp : |fe.dsp| ≤ tuned / 2

theorem setAgainst_initial (dir : Direction) (hclock : 0 < clock) :
    (initial dir clock).SetAgainst clock clock where
  rate := ⟨32, by omega, by omega, rfl⟩
  rf := by
    show ((70000000 : ℤ) : ℚ) ≤ ((1000000000 : ℤ) : ℚ) ∧
      ((1000000000 : ℤ) : ℚ) ≤ ((6000000000 : ℤ) : ℚ)
    norm_num
  dsp := by
    show |((0 : ℤ) : ℚ)| ≤ clock / 2
    rw [Int.cast_zero, abs_zero]
    linarith

variable {rated tuned : ℚ}

theorem SetAgainst.of_tuning (h : fe.SetAgainst rated tuned) (hsame : fe'.tuning = fe.tuning) :
    fe'.SetAgainst rated tuned := by
  obtain ⟨hrate, hrest⟩ := Prod.mk.inj hsame
  obtain ⟨hrf, hdsp⟩ := Prod.mk.inj hrest
  exact ⟨hrate ▸ h.rate, hrf ▸ h.rf, hdsp ▸ h.dsp⟩

theorem SetAgainst.setRate {rate : ℚ} (h : fe.SetAgainst rated tuned) (hclock : 0 < clock)
    (hset : fe.setRate rate clock = .ok fe') : fe'.SetAgainst clock tuned := by
  obtain ⟨k, hk, hk512, rfl⟩ := exists_divisor_of_setRate hclock hset
  exact ⟨⟨k, hk, hk512, rfl⟩, h.rf, h.dsp⟩

theorem SetAgainst.tune {request : TuneRequest ℚ} {result : TuneResult ℚ}
    (h : fe.SetAgainst rated tuned) (hclock : 0 < clock)
    (htune : fe.tune request clock = .ok (result, fe')) : fe'.SetAgainst rated clock := by
  obtain ⟨hrate, hrf, hdsp⟩ := tune_bounds hclock h.rf htune
  exact ⟨hrate ▸ h.rate, hrf, hdsp⟩

/-- A divided rate lies in the range of another clock rate just if that is neither lower than the
divided rate nor more than 512 times as high. -/
theorem divided_mem_rateRange_iff {k : ℕ} (hk : 1 ≤ k) :
    (rateRange clock).contains (rated / k) = true ↔
      k * clock ≤ 512 * rated ∧ rated ≤ k * clock := by
  have hpos : (0 : ℚ) < k := by exact_mod_cast hk
  have hlow : clock / 512 ≤ rated / k ↔ k * clock ≤ 512 * rated := by
    rw [div_le_div_iff₀ (by norm_num) hpos, mul_comm clock, mul_comm rated]
  have hhigh : rated / k ≤ clock ↔ rated ≤ k * clock := by
    rw [div_le_iff₀ hpos, mul_comm clock]
  rw [← hlow, ← hhigh]
  exact Ranges.contains_single

/-- Under the clock rate that a rate was set against it lies in the range. -/
theorem divided_mem_rateRange {k : ℕ} (hclock : 0 < clock) (hk : 1 ≤ k) (hk512 : k ≤ 512) :
    (rateRange clock).contains (clock / k) = true := by
  have hlow : (1 : ℚ) ≤ k := by exact_mod_cast hk
  have hhigh : (k : ℚ) ≤ 512 := by exact_mod_cast hk512
  rw [divided_mem_rateRange_iff hk]
  exact ⟨mul_le_mul_of_nonneg_right hhigh hclock.le, le_mul_of_one_le_left hclock.le hlow⟩

theorem mem_freqRange_iff {freq : ℚ} :
    (freqRange clock).contains freq = true ↔
      rfMin - clock / 2 ≤ freq ∧ freq ≤ rfMax + clock / 2 :=
  Ranges.contains_single

/-- In either direction the frequency is that of the oscillator with the shift of the mixer. -/
theorem SetAgainst.exists_shift (h : fe.SetAgainst rated tuned) :
    ∃ shift, |shift| ≤ tuned / 2 ∧ fe.freq = fe.rf + shift := by
  unfold freq
  cases fe.dir with
  | rx =>
    refine ⟨-fe.dsp, ?_, sub_eq_add_neg fe.rf fe.dsp⟩
    rw [abs_neg]
    exact h.dsp
  | tx => exact ⟨fe.dsp, h.dsp, rfl⟩

/-- Under a clock rate that is not lower than the one it was tuned against, a frequency lies in the
range. -/
theorem SetAgainst.freq_mem (h : fe.SetAgainst rated tuned) (hclock : tuned ≤ clock) :
    (freqRange clock).contains fe.freq = true := by
  obtain ⟨hrfLow, hrfHigh⟩ := h.rf
  obtain ⟨shift, hshift, hfreq⟩ := h.exists_shift
  obtain ⟨hlow, hhigh⟩ := abs_le.1 hshift
  rw [mem_freqRange_iff, hfreq]
  constructor
  · linarith
  · linarith

end Frontend

end SoftRadio
