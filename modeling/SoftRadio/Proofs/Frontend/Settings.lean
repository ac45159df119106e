import SoftRadio.Proofs.Frontend

/-!
# A front end after any settings

Whatever is set on a front end, accepted or refused, its direction and the gain elements it has
stay what they were, and its oscillator stays on the grid.

* `Setting`: what can be set; `Frontend.after`: what becomes of a front end.
* `kept_of_set`: what an accepted setting keeps; `foldl_after`: what each of them keeps, every run
  of settings keeps.
* `stages_foldl_after`: the direction and the gain elements; `onGrid_foldl_after`: the grid.
-/

namespace SoftRadio

namespace Frontend

section

variable {α : Type} [Scalar α] {fe fe' : Frontend α}

/-- A setting of a front end.  Those that hang on the clock rate of its board bring it along. -/
inductive Setting (α : Type) where
  | rate (rate clock : α)
  | tuning (request : TuneRequest α) (clock : α)
  | gain (gain : α) (name : String)
  | antenna (antenna : String)
  | bandwidth (bandwidth : α)
  | dcOffset (enable : Bool)
  | iqBalance (enable : Bool)
  | agc (enable : Bool)

def set (fe : Frontend α) : Setting α → Except Fault (Frontend α)
  | .rate rate clock => fe.setRate rate clock
  | .tuning request clock => Prod.snd <$> fe.tune request clock
  | .gain gain name => fe.setGain gain name
  | .antenna antenna => fe.setAntenna antenna
  | .bandwidth bandwidth => fe.setBandwidth bandwidth
  | .dcOffset enable => .ok { fe with dcOffsetEnabled := enable }
  | .iqBalance enable => .ok { fe with iqBalanceEnabled := enable }
  | .agc enable => .ok { fe with agcEnabled := enable }

/-- What becomes of a front end: a setting that is refused leaves it as it was. -/
def after (fe : Frontend α) (s : Setting α) : Frontend α :=
  match fe.set s with
  | .ok fe' => fe'
  | .error _ => fe

/-- What every accepted setting keeps, every run of settings keeps. -/
theorem foldl_after {P : Frontend α → Prop}
    (hset : ∀ {fe fe' : Frontend α} {s : Setting α}, P fe → fe.set s = .ok fe' → P fe')
    (h : P fe) (settings : List (Setting α)) : P (settings.foldl after fe) := by
  induction settings generalizing fe with
  | nil => exact h
  | cons s rest ih =>
    refine ih ?_
    unfold after
    split
    next fe' hs => exact hset h hs
    · exact h

/-- What a setting keeps of a front end, and where it can have put the oscillator. -/
structure Kept (fe fe' : Frontend α) : Prop where
  dir : fe'.dir = fe.dir
  stages : stages fe'.gains = stages fe.gains
  rf : fe'.rf = fe.rf ∨ ∃ request, fe.actualRf request = .ok fe'.rf

theorem kept_of_set {s : Setting α} (h : fe.set s = .ok fe') : Kept fe fe' := by
  cases s with
  | rate rate clock =>
    obtain ⟨rate', rfl⟩ := exists_of_setRate h
    exact ⟨rfl, rfl, .inl rfl⟩
  | tuning request clock =>
    obtain ⟨⟨result, fe''⟩, htune, rfl⟩ := map_eq_ok_iff.1 h
    obtain ⟨hrf, -, rfl⟩ := eq_of_tune htune
    exact ⟨rfl, rfl, .inr ⟨request, hrf⟩⟩
  | gain gain name =>
    obtain ⟨gains, hgains, rfl⟩ := exists_of_setGain h
    exact ⟨rfl, hgains, .inl rfl⟩
  | antenna antenna =>
    obtain ⟨antenna', rfl⟩ := exists_of_setAntenna h
    exact ⟨rfl, rfl, .inl rfl⟩
  | bandwidth bandwidth =>
    obtain ⟨bandwidth', rfl⟩ := exists_of_setBandwidth h
    exact ⟨rfl, rfl, .inl rfl⟩
  | dcOffset | iqBalance | agc =>
    cases h
    exact ⟨rfl, rfl, .inl rfl⟩

/-- Any settings keep the direction and the gain elements. -/
theorem stages_foldl_after (fe : Frontend α) (settings : List (Setting α)) :
    (settings.foldl after fe).dir = fe.dir ∧
      stages (settings.foldl after fe).gains = stages fe.gains := by
  refine foldl_after (P := fun fe' => fe'.dir = fe.dir ∧ stages fe'.gains = stages fe.gains)
    (fun hbefore hset => ?_) ⟨rfl, rfl⟩ settings
  have hkept := kept_of_set hset
  exact ⟨hkept.dir.trans hbefore.1, hkept.stages.trans hbefore.2⟩

end

/-! ## The grid of the oscillator -/

variable {fe fe' : Frontend ℚ}

/-- A frequency that the oscillator can have. -/
structure OnGrid (freq : ℚ) : Prop where
  steps : ∃ k : ℕ, freq = rfMin + k * rfStep
  low : rfMin ≤ freq
  high : freq ≤ rfMax

theorem zero_lt_rfStep : (0 : ℚ) < rfStep := by
  show (0 : ℚ) < ((1000 : ℤ) : ℚ)
  norm_num

/-- The oscillator is set to the step next to what it is asked for. -/
theorem exists_clip_rfRange (freq : ℚ) :
    ∃ rf, rfRange.clip freq true = .ok rf ∧ Range.NextStep ⟨rfMin, rfMax, rfStep⟩ freq rf := by
  have hstop : (rfMax : ℚ) = rfMin + (5930000 : ℕ) * rfStep := by
    show ((6000000000 : ℤ) : ℚ) = ((70000000 : ℤ) : ℚ) + ((5930000 : ℕ) : ℚ) * ((1000 : ℤ) : ℚ)
    norm_num
  obtain ⟨rf, hnearest, hnext⟩ :=
    Range.exists_nextStep (r := ⟨rfMin, rfMax, rfStep⟩) zero_lt_rfStep hstop freq
  exact ⟨rf, (Ranges.clip_single _ _ _).trans hnearest, hnext⟩

theorem onGrid_of_actualRf {request : TuneRequest ℚ} {rf : ℚ} (hfe : OnGrid fe.rf)
    (h : fe.actualRf request = .ok rf) : OnGrid rf := by
  unfold actualRf at h
  split at h
  · cases h
    exact hfe
  · obtain ⟨rf', hclip, hnext⟩ := exists_clip_rfRange (fe.targetRf request)
    cases hclip.symm.trans h
    exact ⟨hnext.steps, hnext.mem.1, hnext.mem.2⟩

/-- The oscillator starts on its grid and stays on it. -/
theorem onGrid_foldl_after (dir : Direction) (clock : ℚ) (settings : List (Setting ℚ)) :
    OnGrid (settings.foldl after (initial dir clock)).rf := by
  refine foldl_after (P := fun fe => OnGrid fe.rf) (fun hbefore hset => ?_)
    ⟨⟨930000, ?_⟩, ?_, ?_⟩ settings
  · rcases (kept_of_set hset).rf with hsame | ⟨request, hrf⟩
    · exact hsame ▸ hbefore
    · exact onGrid_of_actualRf hbefore hrf
  · show ((1000000000 : ℤ) : ℚ) = ((70000000 : ℤ) : ℚ) + ((930000 : ℕ) : ℚ) * ((1000 : ℤ) : ℚ)
    norm_num
  · show ((70000000 : ℤ) : ℚ) ≤ ((1000000000 : ℤ) : ℚ)
    norm_num
  · show ((1000000000 : ℤ) : ℚ) ≤ ((6000000000 : ℤ) : ℚ)
    norm_num

end Frontend

end SoftRadio
