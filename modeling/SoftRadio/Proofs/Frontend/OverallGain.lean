import SoftRadio.Proofs.Frontend.Settings

/-!
# How near an overall gain comes

An overall gain is spread over the gain elements in order, and each of them takes the step next to
what is left, if it does not take all it can.  An element that goes up leaves less than nothing,
and the elements behind it are left at zero, although their steps may be finer.  So the overall
gain is within half a step of *some* element of what was asked for, and not always within half of
the finest step, which is the step that the overall range shows.

* `Shares`: how a gain is spread; `exists_spread`: it always can be.
* `Shares.near`: the total is within half a step of some element.
* `Overshoots`: the gains at which an element goes up too far; `Shares.lands`: where any gain lands.
* `setGain_overall`: after any settings, when an overall gain is set to the step that is shown.
* `setGain_half_decibel`: when it is not.
-/

namespace SoftRadio

namespace Frontend

/-! ## Spreading a gain -/

/-- A range that starts at zero and ends on one of its steps. -/
structure Aligned (r : Range ℚ) : Prop where
  start : r.start = 0
  step : 0 < r.step
  stop : ∃ n : ℕ, r.stop = n * r.step

/-- How a gain is spread over elements in order: each takes the step next to what is left of it. -/
inductive Shares : ℚ → List (GainElement ℚ) → List (GainElement ℚ) → Prop
  | nil {gain : ℚ} : Shares gain [] []
  | cons {gain value : ℚ} {g : GainElement ℚ} {rest rest' : List (GainElement ℚ)}
      (hvalue : g.range.NextStep gain value) (hrest : Shares (gain - value) rest rest') :
      Shares gain (g :: rest) ({ g with value := value } :: rest')

theorem exists_setTo {g : GainElement ℚ} (hg : Aligned g.range) (gain : ℚ) :
    ∃ value, GainElement.setTo g (Scalar.min gain g.range.stop) = .ok { g with value := value } ∧
      g.range.NextStep gain value := by
  obtain ⟨n, hn⟩ := hg.stop
  have hstop : g.range.stop = g.range.start + n * g.range.step := by rw [hg.start, hn, zero_add]
  obtain ⟨value, hnearest, hnext⟩ :=
    Range.exists_nextStep hg.step hstop (Scalar.min gain g.range.stop)
  refine ⟨value, ?_, (Scalar.min_eq gain g.range.stop ▸ hnext).of_min⟩
  exact bind_eq_ok_iff.2 ⟨value, (Ranges.clip_single _ _ _).trans hnearest, rfl⟩

/-- A gain can always be spread. -/
theorem exists_spread {gains : List (GainElement ℚ)} (hgains : ∀ g ∈ gains, Aligned g.range)
    (gain : ℚ) : ∃ gains', spread gain gains = .ok gains' ∧ Shares gain gains gains' := by
  induction gains generalizing gain with
  | nil => exact ⟨[], rfl, .nil⟩
  | cons g rest ih =>
    obtain ⟨hg, hrest⟩ := List.forall_mem_cons.1 hgains
    obtain ⟨value, hset, hvalue⟩ := exists_setTo hg gain
    obtain ⟨rest', hspread, hshares⟩ := ih hrest (gain - value)
    exact ⟨_, bind_eq_ok_iff.2 ⟨_, hset, bind_eq_ok_iff.2 ⟨_, hspread, rfl⟩⟩, .cons hvalue hshares⟩

section

variable {gain : ℚ} {gains gains' : List (GainElement ℚ)}

theorem Shares.inside (h : Shares gain gains gains') :
    ∀ g ∈ gains', g.range.start ≤ g.value ∧ g.value ≤ g.range.stop := by
  induction h with
  | nil => exact fun g hg => absurd hg List.not_mem_nil
  | cons hvalue hrest ih => exact List.forall_mem_cons.2 ⟨hvalue.mem, ih⟩

/-- Of a gain that is not above zero no element takes anything. -/
theorem Shares.sum_eq_zero (h : Shares gain gains gains') (hgains : ∀ g ∈ gains, Aligned g.range)
    (hgain : gain ≤ 0) : (gains'.map GainElement.value).sum = 0 := by
  induction h with
  | nil => rfl
  | cons hvalue hrest ih =>
    obtain ⟨hg, htail⟩ := List.forall_mem_cons.1 hgains
    have hzero := hvalue.of_le_start (hg.start.symm ▸ hgain)
    rw [hg.start] at hzero
    rw [List.map_cons, List.sum_cons, ih htail (by rw [hzero, sub_zero]; exact hgain), hzero,
      add_zero]

theorem Shares.sum_nonneg (h : Shares gain gains gains') (hgains : ∀ g ∈ gains, Aligned g.range) :
    0 ≤ (gains'.map GainElement.value).sum := by
  induction h with
  | nil => exact le_rfl
  | cons hvalue hrest ih =>
    obtain ⟨hg, htail⟩ := List.forall_mem_cons.1 hgains
    exact add_nonneg (hg.start ▸ hvalue.mem.1) (ih htail)

/-- Either all elements are full and the gain is not less than that, or what they come to is within
half a step of one of them. -/
theorem Shares.near (h : Shares gain gains gains') (hgains : ∀ g ∈ gains, Aligned g.range)
    (hgain : 0 ≤ gain) :
    ((gains'.map GainElement.value).sum = (gains'.map (·.range.stop)).sum ∧
      (gains'.map (·.range.stop)).sum ≤ gain) ∨
    ∃ g ∈ gains', |(gains'.map GainElement.value).sum - gain| ≤ g.range.step / 2 := by
  induction h with
  | nil => exact .inl ⟨rfl, hgain⟩
  | @cons gain value g rest rest' hvalue hrest ih =>
    obtain ⟨hg, htail⟩ := List.forall_mem_cons.1 hgains
    rw [List.map_cons, List.sum_cons, List.map_cons, List.sum_cons]
    dsimp only
    have hpass : value + (rest'.map GainElement.value).sum - gain =
        (rest'.map GainElement.value).sum - (gain - value) := by ring
    rcases le_total g.range.stop gain with hfull | hpart
    · -- a full element leaves the rest of the gain to those behind it
      have hvalue' := hvalue.of_stop_le hfull
      rcases ih htail (by linarith) with ⟨hall, hle⟩ | ⟨g', hg', hnear⟩
      · exact .inl ⟨by linarith, by linarith⟩
      · exact .inr ⟨g', List.mem_cons_of_mem _ hg', hpass ▸ hnear⟩
    · obtain ⟨hdown, hup⟩ := hvalue.near (hg.start.symm ▸ hgain) hpart
      rcases le_total gain value with hover | hunder
      · -- one that goes up leaves nothing
        have hnone := hrest.sum_eq_zero htail (sub_nonpos.2 hover)
        refine .inr ⟨_, List.mem_cons_self, ?_⟩
        rw [hnone, add_zero, abs_of_nonneg (sub_nonneg.2 hover)]
        dsimp only
        linarith
      · rcases ih htail (sub_nonneg.2 hunder) with ⟨hall, hle⟩ | ⟨g', hg', hnear⟩
        · refine .inr ⟨_, List.mem_cons_self, abs_le.2 ⟨?_, ?_⟩⟩
          · dsimp only
            linarith [hrest.sum_nonneg htail]
          · dsimp only
            linarith [hg.step]
        · exact .inr ⟨g', List.mem_cons_of_mem _ hg', hpass ▸ hnear⟩

end

/-! ## The gain elements of either direction -/

variable {fe : Frontend ℚ} {dir : Direction} {gain : ℚ}

theorem stages_rx :
    stages (initialGains .rx : List (GainElement ℚ)) =
      [("LNA", ⟨0, 30, 1⟩), ("PGA", ⟨0, 46, 1 / 2⟩)] := by
  simp [stages, initialGains, Scalar.ofInt, Scalar.ratio]

theorem stages_tx :
    stages (initialGains .tx : List (GainElement ℚ)) = [("PGA", ⟨0, 359 / 4, 1 / 4⟩)] := by
  simp [stages, initialGains, Scalar.ofInt, Scalar.ratio]

theorem aligned_of_stages {gains : List (GainElement ℚ)}
    (h : stages gains = stages (initialGains dir)) : ∀ g ∈ gains, Aligned g.range := by
  have hstages : ∀ stage ∈ stages gains, Aligned stage.2 := by
    rw [h]
    cases dir with
    | rx =>
      rw [stages_rx, List.forall_mem_cons, List.forall_mem_singleton]
      exact ⟨⟨rfl, by norm_num, 30, by norm_num⟩, ⟨rfl, by norm_num, 92, by norm_num⟩⟩
    | tx =>
      rw [stages_tx, List.forall_mem_singleton]
      exact ⟨rfl, by norm_num, 359, by norm_num⟩
  exact fun g hg => hstages _ (List.mem_map_of_mem hg)

/-- The overall gain at most. -/
def gainMax : Direction → ℚ
  | .rx => 76
  | .tx => 359 / 4

/-- The step that is shown for the overall gain. -/
def gainStep : Direction → ℚ
  | .rx => 1 / 2
  | .tx => 1 / 4

theorem zero_lt_gainMax (dir : Direction) : 0 < gainMax dir := by
  cases dir with
  | rx => norm_num [gainMax]
  | tx => norm_num [gainMax]

theorem zero_lt_gainStep (dir : Direction) : 0 < gainStep dir := by
  cases dir with
  | rx => exact one_half_pos
  | tx => exact div_pos one_pos four_pos

theorem map_range_eq {β : Type} (f : Range ℚ → β) (gains : List (GainElement ℚ)) :
    gains.map (f ·.range) = (stages gains).map (f ·.2) := by
  unfold stages
  rw [List.map_map]
  rfl

theorem sum_stop_of_stages {gains : List (GainElement ℚ)}
    (h : stages gains = stages (initialGains dir)) :
    (gains.map (·.range.stop)).sum = gainMax dir := by
  rw [map_range_eq Range.stop, h]
  cases dir with
  | rx =>
    have hsum : [(30 : ℚ), 46].sum = 76 := by norm_num
    rw [stages_rx]
    exact hsum
  | tx =>
    rw [stages_tx]
    exact List.sum_singleton

/-- The overall range hangs on the elements alone, not on their values. -/
theorem overallRange_of_stages (h : stages fe.gains = stages (initialGains dir)) :
    fe.overallRange = Ranges.single 0 (gainMax dir) (gainStep dir) := by
  have hstep : Ranges.least Scalar.infinity (fe.gains.map (·.range.step)) = gainStep dir := by
    rw [map_range_eq Range.step, h]
    cases dir with
    | rx =>
      have hleast : Ranges.least Scalar.infinity [(1 : ℚ), 1 / 2] = 1 / 2 := by decide +kernel
      rw [stages_rx]
      exact hleast
    | tx =>
      rw [stages_tx]
      rfl
  unfold overallRange
  rw [Scalar.sum_eq, sum_stop_of_stages h, hstep]
  rfl

/-! ## Where an overall gain lands -/

/-- The gains that a receiver goes past.  Below thirty its first element takes whole decibels, from
half way on the next one, which is near enough to the gain only from three quarters on. -/
def Overshoots (dir : Direction) (gain : ℚ) : Prop :=
  dir = .rx ∧ gain < 30 ∧ 1 / 2 ≤ Int.fract gain ∧ Int.fract gain < 3 / 4

/-- Where a gain lands that lies in the overall range. -/
structure Lands (dir : Direction) (gain total : ℚ) : Prop where
  steps : ∃ k : ℕ, total = k * gainStep dir
  near_iff : |total - gain| ≤ gainStep dir / 2 ↔ ¬ Overshoots dir gain
  past : Overshoots dir gain → total = ⌊gain⌋ + 1

theorem Lands.of_near {total : ℚ} (hsteps : ∃ k : ℕ, total = k * gainStep dir)
    (hdown : total - gainStep dir / 2 ≤ gain) (hup : gain ≤ total + gainStep dir / 2)
    (hnot : ¬ Overshoots dir gain) : Lands dir gain total where
  steps := hsteps
  near_iff := iff_of_true (abs_le.2 ⟨by linarith, by linarith⟩) hnot
  past h := absurd h hnot

/-- Of the steps that are shown all are hit that are not gone past. -/
theorem Lands.hits_iff {total : ℚ} (h : Lands dir gain total) {k : ℕ}
    (hgain : gain = k * gainStep dir) : total = gain ↔ ¬ Overshoots dir gain := by
  have hstep := zero_lt_gainStep dir
  rw [← h.near_iff]
  constructor
  · rintro rfl
    rw [sub_self, abs_zero]
    exact (half_pos hstep).le
  · intro hnear
    obtain ⟨n, rfl⟩ := h.steps
    rw [hgain, ← sub_mul, abs_mul, abs_of_pos hstep, mul_comm, ← mul_one_div,
      mul_le_mul_iff_right₀ hstep] at hnear
    have hlt : |(n : ℤ) - (k : ℤ)| < 1 := by
      have hcast : ((|(n : ℤ) - (k : ℤ)| : ℤ) : ℚ) ≤ 1 / 2 := by exact_mod_cast hnear
      have hone : ((|(n : ℤ) - (k : ℤ)| : ℤ) : ℚ) < 1 := by linarith
      exact_mod_cast hone
    have hsame : (n : ℤ) = k := sub_eq_zero.1 (Int.abs_lt_one_iff.1 hlt)
    rw [hgain, Int.ofNat_inj.1 hsame]

theorem lands_rx {first second : ℚ} (hgain : 0 ≤ gain) (hmax : gain ≤ 76)
    (hfirst : Range.NextStep ⟨0, 30, 1⟩ gain first)
    (hsecond : Range.NextStep ⟨0, 46, 1 / 2⟩ (gain - first) second) :
    Lands .rx gain (first + second) := by
  obtain ⟨k, hk⟩ := hfirst.steps
  obtain ⟨l, hl⟩ := hsecond.steps
  simp only [zero_add, mul_one] at hk hl
  have hsteps : ∃ n : ℕ, first + second = n * gainStep .rx := by
    refine ⟨2 * k + l, ?_⟩
    unfold gainStep
    push_cast
    linarith
  have hrest (hunder : first ≤ gain) (hleft : gain - first ≤ 46)
      (hnot : ¬ Overshoots .rx gain) : Lands .rx gain (first + second) := by
    obtain ⟨hdown, hup⟩ := hsecond.near (sub_nonneg.2 hunder) hleft
    dsimp only at hdown hup
    refine .of_near hsteps ?_ ?_ hnot
    all_goals unfold gainStep
    all_goals linarith
  rcases le_total 30 gain with habove | hbelow
  · -- the first element is full
    have hfull : first = 30 := hfirst.of_stop_le habove
    exact hrest (by linarith) (by linarith) fun h => by linarith [h.2.1]
  · obtain ⟨hdown, hup⟩ := hfirst.near hgain hbelow
    dsimp only at hdown hup
    rcases le_or_gt first gain with hunder | hover
    · have hfloor : ⌊gain⌋ = k := by
        rw [Int.floor_eq_iff]
        push_cast
        exact ⟨by linarith, by linarith⟩
      have hfract : Int.fract gain = gain - first := by rw [Int.fract, hfloor, hk, Int.cast_natCast]
      exact hrest hunder (by linarith) fun h => by linarith [h.2.2.1]
    · -- the first element has gone up, and the second stays at zero
      have hnone : second = 0 := hsecond.of_le_start (sub_nonpos.2 hover.le)
      have hfloor : ⌊gain⌋ = k - 1 := by
        rw [Int.floor_eq_iff]
        push_cast
        exact ⟨by linarith, by linarith⟩
      have htotal : first + second = ⌊gain⌋ + 1 := by
        rw [hfloor, hnone, hk]
        push_cast
        ring
      have hoff : first + second - gain = 1 - Int.fract gain := by
        rw [Int.fract, htotal]
        ring
      have hlate : 1 / 2 ≤ Int.fract gain := by linarith
      have hlast : first ≤ 30 := hfirst.mem.2
      refine ⟨hsteps, ?_, fun _ => htotal⟩
      rw [hoff, abs_of_pos (by linarith [Int.fract_lt_one gain])]
      unfold gainStep
      constructor
      · intro hnear h
        linarith [h.2.2.2]
      · intro hnot
        by_contra hfar
        exact hnot ⟨rfl, by linarith, hlate, by linarith⟩

theorem lands_tx {value : ℚ} (hgain : 0 ≤ gain) (hmax : gain ≤ 359 / 4)
    (hvalue : Range.NextStep ⟨0, 359 / 4, 1 / 4⟩ gain value) : Lands .tx gain value := by
  obtain ⟨k, hk⟩ := hvalue.steps
  obtain ⟨hdown, hup⟩ := hvalue.near hgain hmax
  exact .of_near ⟨k, hk.trans (zero_add _)⟩ hdown hup.le fun h => Direction.noConfusion h.1

/-- Where a gain lands that is spread over the elements of either direction. -/
theorem Shares.lands {gains gains' : List (GainElement ℚ)} (h : Shares gain gains gains')
    (hstages : stages gains = stages (initialGains dir)) (hgain : 0 ≤ gain)
    (hmax : gain ≤ gainMax dir) : Lands dir gain (gains'.map GainElement.value).sum := by
  cases dir with
  | rx =>
    rw [stages_rx] at hstages
    obtain ⟨first, rest, rfl, hfirst, hrest⟩ := List.map_eq_cons_iff.1 hstages
    obtain ⟨second, rest, rfl, hsecond, hnil⟩ := List.map_eq_cons_iff.1 hrest
    cases List.map_eq_nil_iff.1 hnil
    cases h with
    | @cons _ value _ _ _ hvalue h =>
      cases h with
      | @cons _ value' _ _ _ hvalue' h =>
        cases h
        rw [(Prod.mk.inj hfirst).2] at hvalue
        rw [(Prod.mk.inj hsecond).2] at hvalue'
        show Lands .rx gain (value + (value' + 0))
        rw [add_zero]
        exact lands_rx hgain hmax hvalue hvalue'
  | tx =>
    rw [stages_tx] at hstages
    obtain ⟨g, rest, rfl, hg, hnil⟩ := List.map_eq_cons_iff.1 hstages
    cases List.map_eq_nil_iff.1 hnil
    cases h with
    | @cons _ value _ _ _ hvalue h =>
      cases h
      rw [(Prod.mk.inj hg).2] at hvalue
      show Lands .tx gain (value + 0)
      rw [add_zero]
      exact lands_tx hgain hmax hvalue

/-- An overall gain is never refused: what can be had of it is spread over the elements. -/
theorem exists_setGain (hstages : stages fe.gains = stages (initialGains dir)) (gain : ℚ) :
    ∃ gains, fe.setGain gain "" = .ok { fe with gains := gains } ∧
      stages gains = stages (initialGains dir) ∧
      Shares (max 0 (min gain (gainMax dir))) fe.gains gains := by
  have hclip : fe.overallRange.clip gain false = .ok (max 0 (min gain (gainMax dir))) := by
    rw [overallRange_of_stages hstages]
    exact (Ranges.clip_single _ _ _).trans (Range.nearest_eq gain (zero_lt_gainMax dir).le)
  obtain ⟨gains, hspread, hshares⟩ :=
    exists_spread (aligned_of_stages hstages) (max 0 (min gain (gainMax dir)))
  exact ⟨gains, bind_eq_ok_iff.2 ⟨_, hclip, bind_eq_ok_iff.2 ⟨gains, hspread, rfl⟩⟩,
    (stages_of_spread hspread).trans hstages, hshares⟩

theorem exists_near {gains gains' : List (GainElement ℚ)} (h : Shares gain gains gains')
    (hstages : stages gains = stages (initialGains dir))
    (hstages' : stages gains' = stages (initialGains dir)) (hgain : 0 ≤ gain)
    (hmax : gain ≤ gainMax dir) :
    ∃ g ∈ gains', |(gains'.map GainElement.value).sum - gain| ≤ g.range.step / 2 := by
  have hstops := sum_stop_of_stages hstages'
  rcases h.near (aligned_of_stages hstages) hgain with ⟨hall, hle⟩ | hsome
  · have hne : gains' ≠ [] := by
      rintro rfl
      exact (zero_lt_gainMax dir).ne hstops
    obtain ⟨g, hg⟩ := List.exists_mem_of_ne_nil gains' hne
    have hexact : (gains'.map GainElement.value).sum - gain = 0 := by linarith
    refine ⟨g, hg, ?_⟩
    rw [hexact, abs_zero]
    exact (half_pos (aligned_of_stages hstages' g hg).step).le
  · exact hsome

/-- After any settings, when an overall gain is set: every element is inside its range, the total
is within half a step of some element of what can be had of the gain, and it is within half of the
step that is shown just if the gain is not one that is gone past.  Those are taken to the next
whole decibel, and of the steps that are shown all others are hit. -/
theorem setGain_overall (dir : Direction) (opening : ℚ) (settings : List (Setting ℚ)) (gain : ℚ) :
    ∃ fe' range stop step nearest total,
      (settings.foldl after (initial dir opening)).setGain gain "" = .ok fe' ∧
      fe'.gain "" = .ok total ∧
      fe'.gainRange "" = .ok range ∧ range.stop = .ok stop ∧ range.step = .ok step ∧
      range.clip gain false = .ok nearest ∧
      (∀ g ∈ fe'.gains, g.range.start ≤ g.value ∧ g.value ≤ g.range.stop) ∧
      (∃ g ∈ fe'.gains, |total - nearest| ≤ g.range.step / 2) ∧
      (|total - nearest| ≤ step / 2 ↔ ¬ Overshoots dir nearest) ∧
      (Overshoots dir nearest → total = ⌊nearest⌋ + 1) ∧
      ∀ k : ℕ, gain = k * step → gain ≤ stop → (total = gain ↔ ¬ Overshoots dir gain) := by
  obtain ⟨fe, hfe⟩ : ∃ fe, settings.foldl after (initial dir opening) = fe := ⟨_, rfl⟩
  have hstages : stages fe.gains = stages (initialGains dir) :=
    hfe ▸ (stages_foldl_after (initial dir opening) settings).2
  rw [hfe]
  obtain ⟨gains, hset, hstages', hshares⟩ := exists_setGain hstages gain
  have hrange : overallRange { fe with gains := gains } = _ := overallRange_of_stages hstages'
  obtain ⟨nearest, hnearest⟩ : ∃ nearest, max 0 (min gain (gainMax dir)) = nearest := ⟨_, rfl⟩
  have hlow : 0 ≤ nearest := hnearest ▸ le_max_left _ _
  have hhigh : nearest ≤ gainMax dir :=
    hnearest ▸ max_le (zero_lt_gainMax dir).le (min_le_right _ _)
  rw [hnearest] at hshares
  have hlands := hshares.lands hstages hlow hhigh
  have hsome := exists_near hshares hstages hstages' hlow hhigh
  rw [← Scalar.sum_eq] at hlands hsome
  refine ⟨{ fe with gains := gains }, _, gainMax dir, gainStep dir, nearest, _, hset, rfl,
    congrArg Except.ok hrange, rfl, Ranges.step_single _ _ (zero_lt_gainStep dir), ?_,
    hshares.inside, hsome, hlands.near_iff, hlands.past, fun k hk hstop => ?_⟩
  · exact hnearest ▸ (Ranges.clip_single _ _ _).trans
      (Range.nearest_eq gain (zero_lt_gainMax dir).le)
  · have hself : nearest = gain := by
      have hpos : 0 ≤ gain := hk.symm ▸ mul_nonneg (Nat.cast_nonneg k) (zero_lt_gainStep dir).le
      rw [← hnearest, min_eq_left hstop, max_eq_right hpos]
    rw [hself] at hlands
    exact hlands.hits_iff hk

/-- A receiver is asked for half a decibel, the first step of the overall range, and is set to a
whole one, which is further off than half a step. -/
theorem setGain_half_decibel :
    ∃ fe range nearest step total,
      (initial .rx 32000000 : Frontend ℚ).setGain (1 / 2) "" = .ok fe ∧
      fe.gain "" = .ok total ∧ fe.gainRange "" = .ok range ∧ range.step = .ok step ∧
      range.clip (1 / 2) false = .ok nearest ∧
      step = 1 / 2 ∧ nearest = 1 / 2 ∧ total = 1 ∧ ¬ |total - nearest| ≤ step / 2 := by
  have hstages : stages (initial .rx 32000000 : Frontend ℚ).gains = stages (initialGains .rx) := rfl
  obtain ⟨gains, hset, hstages', hshares⟩ := exists_setGain hstages (1 / 2)
  have hrange : overallRange { initial .rx 32000000 with gains := gains } = _ :=
    overallRange_of_stages hstages'
  have hover : Overshoots .rx (1 / 2) := ⟨rfl, by norm_num, by norm_num, by norm_num⟩
  have hnearest : max 0 (min (1 / 2) (gainMax .rx)) = 1 / 2 := by norm_num [gainMax]
  rw [hnearest] at hshares
  have hlands := hshares.lands hstages one_half_pos.le (by norm_num [gainMax])
  rw [← Scalar.sum_eq] at hlands
  refine ⟨{ initial .rx 32000000 with gains := gains }, _, _, gainStep .rx, _, hset, rfl,
    congrArg Except.ok hrange, Ranges.step_single _ _ (zero_lt_gainStep .rx),
    (Ranges.clip_single _ _ _).trans (Range.nearest_eq (1 / 2) (zero_lt_gainMax .rx).le), rfl,
    hnearest, ?_, ?_⟩
  · exact (hlands.past hover).trans (by norm_num)
  · rw [hnearest]
    exact fun hnear => hlands.near_iff.1 hnear hover

end Frontend

end SoftRadio
