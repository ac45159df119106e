import SoftRadio.Proofs.Device.InPlace
import SoftRadio.Proofs.Frontend

/-!
# Rates, frequencies and clock rates

The ranges that a radio reports for a channel hang on the clock rate that its board has now; its
rate and its frequency hang on the clock rates that the board had when they were last set.  A
change of the clock rate leaves them as they are, so they lie in the ranges as long as the clock
rate is what it was, and not always otherwise.

* `settings`: what the calls of a run have set, with the clock rates of that moment; `lastClock`.
* `InTune`: every front end was set against the clock rates that are on record for it;
  `InTune.after`, `inTune_foldl_after`.
* `Inside`: what is reported for a channel lies in the range that is reported.
* `inside_after_happenings`: when it does; `outside_after_slowedLast`: it does not always.
-/

namespace SoftRadio

namespace Device

variable {α : Type} {d d' : Device α}

/-- The clock rates of the boards. -/
def clockRates (d : Device α) : List α := d.boards.map Board.clockRate

theorem mem_clockRates_of_channel {dir : Direction} {chan : Nat} {place : Location}
    {fe : Frontend α} {clock : α} (h : d.channel dir chan = .ok (place, fe, clock)) :
    clock ∈ d.clockRates := by
  obtain ⟨place', -, h⟩ := bind_eq_ok_iff.1 h
  obtain ⟨b, hb, h⟩ := bind_eq_ok_iff.1 h
  obtain ⟨fe', -, h⟩ := bind_eq_ok_iff.1 h
  cases pure_eq_ok_iff.1 h
  exact List.mem_map_of_mem (mem_of_board hb)

theorem getElem?_of_channel {dir : Direction} {chan : Nat} {place : Location} {fe : Frontend α}
    {clock : α} (h : d.channel dir chan = .ok (place, fe, clock)) :
    (d.frontends.get dir)[place.frontend]? = some fe := by
  obtain ⟨place', -, h⟩ := bind_eq_ok_iff.1 h
  obtain ⟨b, -, h⟩ := bind_eq_ok_iff.1 h
  obtain ⟨fe', hfe, h⟩ := bind_eq_ok_iff.1 h
  cases pure_eq_ok_iff.1 h
  unfold frontend at hfe
  split at hfe
  next hget =>
    cases hfe
    exact hget
  · cases hfe

variable [Scalar α]

/-! ## What a run has set -/

/-- A front end that was set, and the clock rate that its board had. -/
structure Setting (α : Type) where
  dir : Direction
  frontend : Nat
  clock : α

/-- What a happening sets, if it is a call of the kind that is looked for and is accepted. -/
def setting? (kind : Call α → Option (Direction × Nat)) (d : Device α) :
    Happening α → Option (Setting α)
  | .call looks call => do
    let (dir, chan) ← kind call
    let _ ← (d.perform looks call).toOption
    let (place, _, clock) ← (d.channel dir chan).toOption
    return ⟨dir, place.frontend, clock⟩
  | _ => none

/-- What the calls of one kind have set in a run, in order. -/
def settings (kind : Call α → Option (Direction × Nat)) (d : Device α) :
    List (Happening α) → List (Setting α)
  | [] => []
  | h :: rest => (d.setting? kind h).toList ++ (d.after h).settings kind rest

/-- Put a setting on record. -/
def record (clocks : Direction → Nat → α) (s : Setting α) : Direction → Nat → α :=
  fun dir index => if s.dir = dir ∧ s.frontend = index then s.clock else clocks dir index

/-- The clock rate that each front end was set against last; the first is that of the opening. -/
def lastClock (opening : α) (settings : List (Setting α)) : Direction → Nat → α :=
  settings.foldl record fun _ _ => opening

section

variable {kind : Call α → Option (Direction × Nat)} {looks : Nat → α} {call : Call α}

theorem setting?_of_error {f : Fault} (h : d.perform looks call = .error f) :
    d.setting? kind (.call looks call) = none := by
  unfold setting?
  dsimp only
  rw [h]
  cases kind call <;> rfl

theorem setting?_of_kind_none (h : kind call = none) :
    d.setting? kind (.call looks call) = none := by
  unfold setting?
  dsimp only
  rw [h]
  rfl

theorem setting?_of_ok {dir : Direction} {chan : Nat} {place : Location} {fe : Frontend α}
    {clock : α} {result : Answer α × Device α} (hkind : kind call = some (dir, chan))
    (h : d.perform looks call = .ok result)
    (hchannel : d.channel dir chan = .ok (place, fe, clock)) :
    d.setting? kind (.call looks call) = some ⟨dir, place.frontend, clock⟩ := by
  unfold setting?
  dsimp only
  rw [hkind, h]
  dsimp only [bind, Option.bind, Except.toOption]
  rw [hchannel]
  rfl

end

omit [Scalar α] in
theorem record_self (clocks : Direction → Nat → α) (s : Setting α) :
    record clocks s s.dir s.frontend = s.clock :=
  if_pos ⟨rfl, rfl⟩

omit [Scalar α] in
theorem record_of_ne (clocks : Direction → Nat → α) {s : Setting α} {dir : Direction} {index : Nat}
    (h : (dir, index) ≠ (s.dir, s.frontend)) : record clocks s dir index = clocks dir index := by
  refine if_neg fun hsame => h ?_
  rw [hsame.1, hsame.2]

/-! ## Front ends on record -/

/-- Every clock rate is a rate, and every front end was set against the clock rates that are on
record for it: `rated` for its rate, and `tuned` for its frequency. -/
structure InTune (d : Device ℚ) (rated tuned : Direction → Nat → ℚ) : Prop where
  clocks : ∀ clock ∈ d.clockRates, 0 < clock
  frontends : ∀ dir index (fe : Frontend ℚ), (d.frontends.get dir)[index]? = some fe →
    fe.SetAgainst (rated dir index) (tuned dir index)

section

variable {d d' : Device ℚ} {rated tuned rated' tuned' : Direction → Nat → ℚ}

theorem InTune.of_same (hd : d.InTune rated tuned) (hclocks : d'.clockRates = d.clockRates)
    (hfrontends : d'.frontends = d.frontends) : d'.InTune rated tuned := by
  constructor
  case clocks => exact hclocks ▸ hd.clocks
  case frontends => exact hfrontends ▸ hd.frontends

theorem InTune.setClockRate (hd : d.InTune rated tuned) {b : Board ℚ} {rate : ℚ} (index : Nat)
    (hrate : 0 < rate) : (d.setBoard index { b with clockRate := rate }).InTune rated tuned := by
  constructor
  case clocks =>
    intro clock hclock
    obtain ⟨b', hb', rfl⟩ := List.mem_map.1 hclock
    rcases List.mem_or_eq_of_mem_set hb' with hmem | rfl
    · exact hd.clocks _ (List.mem_map_of_mem hmem)
    · exact hrate
  case frontends => exact hd.frontends

/-- One front end is set, and the record of no other is changed. -/
theorem InTune.setFrontend (hd : d.InTune rated tuned) {dir : Direction} {index : Nat}
    {fe : Frontend ℚ} (hfe : fe.SetAgainst (rated' dir index) (tuned' dir index))
    (hrest : ∀ dir' index', (dir', index') ≠ (dir, index) →
      rated' dir' index' = rated dir' index' ∧ tuned' dir' index' = tuned dir' index') :
    (d.setFrontend dir index fe).InTune rated' tuned' := by
  constructor
  case clocks => exact hd.clocks
  case frontends =>
    intro dir' index' fe' hget
    by_cases hsame : (dir', index') = (dir, index)
    · obtain ⟨rfl, rfl⟩ := Prod.mk.inj hsame
      have hset : ((d.frontends.get dir').set index' fe)[index']? = some fe' := by
        rw [← hget]
        exact congrArg (·[index']?) (Sides.get_set_self d.frontends dir' _).symm
      rw [List.getElem?_set_self'] at hset
      obtain ⟨-, -, rfl⟩ := Option.map_eq_some_iff.1 hset
      exact hfe
    · obtain ⟨hrated, htuned⟩ := hrest dir' index' hsame
      rw [hrated, htuned]
      refine hd.frontends dir' index' fe' ?_
      rw [← hget]
      show _ = ((d.frontends.set dir _).get dir')[index']?
      by_cases hdir : dir' = dir
      · subst hdir
        have hindex : index ≠ index' := fun heq => hsame (congrArg (Prod.mk dir') heq.symm)
        rw [Sides.get_set_self, List.getElem?_set_ne hindex]
      · rw [Sides.get_set_of_ne _ _ hdir]

theorem InTune.frontend_of_channel (hd : d.InTune rated tuned) {dir : Direction} {chan : Nat}
    {place : Location} {fe : Frontend ℚ} {clock : ℚ}
    (h : d.channel dir chan = .ok (place, fe, clock)) :
    0 < clock ∧ fe.SetAgainst (rated dir place.frontend) (tuned dir place.frontend) :=
  ⟨hd.clocks clock (mem_clockRates_of_channel h),
    hd.frontends dir place.frontend fe (getElem?_of_channel h)⟩

/-- Whatever happens, what it sets is put on record. -/
theorem InTune.after (hd : d.InTune rated tuned) (h : Happening ℚ) :
    (d.after h).InTune ((d.setting? Call.setsRate h).toList.foldl record rated)
      ((d.setting? Call.tunes h).toList.foldl record tuned) := by
  cases h with
  | round elapsed wanted onePacket buffers => exact hd
  | issueOn other command elapsed =>
    rw [after_issueOn]
    exact hd.of_same rfl rfl
  | call looks call =>
    cases hp : d.perform looks call with
    | error f =>
      rw [after_of_error hp, setting?_of_error hp, setting?_of_error hp]
      exact hd
    | ok result =>
      obtain ⟨answer, d'⟩ := result
      rw [after_of_ok hp]
      cases perform_change hp with
      | nothing hcall =>
        rw [setting?_of_kind_none hcall.rate, setting?_of_kind_none hcall.tune]
        exact hd
      | board hb _ hclock _ hcall =>
        rw [setting?_of_kind_none hcall.rate, setting?_of_kind_none hcall.tune]
        exact hd.of_same (map_setBoard hb hclock) rfl
      | pins hb => exact hd.of_same (map_setBoard hb rfl) rfl
      | clockRate hb hpos => exact hd.setClockRate _ (Scalar.zero_lt_iff.1 hpos)
      | clocks => exact hd.of_same (map_setTimeUnknownPulse d _ _ fun _ _ => rfl) rfl
      | @spec dir spec index b hb hfits =>
        exact hd.of_same (map_setBoard hb (by cases dir <;> rfl)) rfl
      | office | created | stored => exact hd.of_same rfl rfl
      | @rate dir rate chan place fe fe' clock hchannel hset =>
        obtain ⟨hclock, hfe⟩ := hd.frontend_of_channel hchannel
        rw [setting?_of_ok rfl hp hchannel, setting?_of_kind_none rfl]
        refine hd.setFrontend ?_ fun dir' index' hne => ⟨record_of_ne rated hne, rfl⟩
        show fe'.SetAgainst (record rated ⟨dir, place.frontend, clock⟩ dir place.frontend) _
        rw [record_self rated ⟨dir, place.frontend, clock⟩]
        exact hfe.setRate hclock hset
      | @tuned dir request result chan place fe fe' clock hchannel htune =>
        obtain ⟨hclock, hfe⟩ := hd.frontend_of_channel hchannel
        rw [setting?_of_kind_none rfl, setting?_of_ok rfl hp hchannel]
        refine hd.setFrontend ?_ fun dir' index' hne => ⟨rfl, record_of_ne tuned hne⟩
        show fe'.SetAgainst _ (record tuned ⟨dir, place.frontend, clock⟩ dir place.frontend)
        rw [record_self tuned ⟨dir, place.frontend, clock⟩]
        exact hfe.tune hclock htune
      | frontend hchannel hsame hcall =>
        obtain ⟨-, hfe⟩ := hd.frontend_of_channel hchannel
        rw [setting?_of_kind_none hcall.rate, setting?_of_kind_none hcall.tune]
        exact hd.setFrontend (hfe.of_tuning hsame) fun dir' index' hne => ⟨rfl, rfl⟩

/-- After a run every front end is set against what the run has put on record. -/
theorem inTune_foldl_after (hd : d.InTune rated tuned) (happenings : List (Happening ℚ)) :
    (happenings.foldl Device.after d).InTune
      ((d.settings Call.setsRate happenings).foldl record rated)
      ((d.settings Call.tunes happenings).foldl record tuned) := by
  induction happenings generalizing d rated tuned with
  | nil => exact hd
  | cons h rest ih =>
    have hrest := ih (hd.after h)
    rw [← List.foldl_append, ← List.foldl_append] at hrest
    exact hrest

/-- At the opening every front end is set against the clock rate of all boards. -/
theorem inTune_make {defaults g : Geometry ℚ} {args addr : Address}
    (hsize : Geometry.ofAddress defaults args = .ok g) (h : make addr g = .ok d) :
    d.InTune (fun _ _ => g.clockRate) fun _ _ => g.clockRate := by
  have hpos : 0 < g.clockRate :=
    Scalar.zero_lt_iff.1 (Geometry.valid_of_ofAddress hsize).clockRate.2
  obtain ⟨-, -, h⟩ := bind_eq_ok_iff.1 h
  obtain ⟨tree, -, h⟩ := bind_eq_ok_iff.1 h
  obtain ⟨boards, hboards, h⟩ := bind_eq_ok_iff.1 h
  cases pure_eq_ok_iff.1 h
  constructor
  case clocks =>
    intro clock hclock
    obtain ⟨b, hb, rfl⟩ := List.mem_map.1 hclock
    obtain ⟨-, -, hinitial⟩ := exists_of_mem_mapM hboards hb
    obtain ⟨rxSpec, -, hinitial⟩ := bind_eq_ok_iff.1 hinitial
    obtain ⟨txSpec, -, hinitial⟩ := bind_eq_ok_iff.1 hinitial
    cases pure_eq_ok_iff.1 hinitial
    exact hpos
  case frontends =>
    intro dir index fe hfe
    have hinitial : fe = Frontend.initial dir g.clockRate := by
      cases dir with
      | rx => exact List.eq_of_mem_replicate (List.mem_of_getElem? hfe)
      | tx => exact List.eq_of_mem_replicate (List.mem_of_getElem? hfe)
    rw [hinitial]
    exact Frontend.setAgainst_initial dir hpos

end

/-! ## What is reported -/

/-- The value that is reported lies in the range that is reported. -/
def Inside (d : Device α) (value range : Call α) : Prop :=
  ∀ looks, ∃ v r, d.answer looks value = .ok (.real v) ∧
    d.answer looks range = .ok (.ranges r) ∧ r.contains v = true

section

variable {dir : Direction} {chan : Nat} {place : Location} {fe : Frontend α} {clock : α}

theorem answer_of_ask {f : Frontend α → α → Except Fault (Answer α)} {call : Call α}
    {looks : Nat → α} {a : Answer α} (hcall : d.perform looks call = d.reply (d.ask dir chan f))
    (h : d.channel dir chan = .ok (place, fe, clock)) (hf : f fe clock = .ok a) :
    d.answer looks call = .ok a := by
  unfold answer
  rw [hcall]
  unfold Device.ask
  rw [h]
  show Prod.fst <$> d.reply (f fe clock) = _
  rw [hf]
  rfl

theorem inside_iff {value range : Call α} {v : α} {r : Ranges α}
    (hvalue : ∀ looks, d.answer looks value = .ok (.real v))
    (hrange : ∀ looks, d.answer looks range = .ok (.ranges r)) :
    d.Inside value range ↔ r.contains v = true := by
  constructor
  · intro hinside
    obtain ⟨v', r', hv, hr, hmem⟩ := hinside fun _ => v
    rw [hvalue] at hv
    rw [hrange] at hr
    cases hv
    cases hr
    exact hmem
  · intro hmem looks
    exact ⟨v, r, hvalue looks, hrange looks, hmem⟩

theorem inside_rate_iff (h : d.channel dir chan = .ok (place, fe, clock)) :
    d.Inside (.rate dir chan) (.rates dir chan) ↔
      (Frontend.rateRange clock).contains fe.rate = true :=
  inside_iff (fun _ => answer_of_ask rfl h rfl) fun _ => answer_of_ask rfl h rfl

theorem inside_freq_iff (h : d.channel dir chan = .ok (place, fe, clock)) :
    d.Inside (.freq dir chan) (.freqRange dir chan) ↔
      (Frontend.freqRange clock).contains fe.freq = true :=
  inside_iff (fun _ => answer_of_ask rfl h rfl) fun _ => answer_of_ask rfl h rfl

end

/-- How the rate and the frequency of a channel lie when the clock rate of its board is `clock`, its
rate was last set against `rated` and it was last tuned against `tuned`. -/
structure InsideWhile (d : Device ℚ) (dir : Direction) (chan : Nat) (clock rated tuned : ℚ) :
    Prop where
  /-- The rate divides the clock rate that it was set against, and lies in the range just if the
  clock rate there is now is neither lower than the rate nor more than 512 times as high. -/
  rate_iff : ∃ k : ℕ, 1 ≤ k ∧ k ≤ 512 ∧
    (∀ looks, d.answer looks (.rate dir chan) = .ok (.real (rated / k))) ∧
    (d.Inside (.rate dir chan) (.rates dir chan) ↔ k * clock ≤ 512 * rated ∧ rated ≤ k * clock)
  rate : clock = rated → d.Inside (.rate dir chan) (.rates dir chan)
  /-- The frequency is one of the oscillator's with a shift of at most half of the clock rate that
  it was tuned against, and lies in the range just if half of the clock rate there is now reaches
  as far. -/
  freq_iff : ∃ rf shift : ℚ, (Frontend.rfMin ≤ rf ∧ rf ≤ Frontend.rfMax) ∧ |shift| ≤ tuned / 2 ∧
    (∀ looks, d.answer looks (.freq dir chan) = .ok (.real (rf + shift))) ∧
    (d.Inside (.freq dir chan) (.freqRange dir chan) ↔
      Frontend.rfMin - clock / 2 ≤ rf + shift ∧ rf + shift ≤ Frontend.rfMax + clock / 2)
  freq : tuned ≤ clock → d.Inside (.freq dir chan) (.freqRange dir chan)

theorem insideWhile_of_setAgainst {d : Device ℚ} {dir : Direction} {chan : Nat} {place : Location}
    {fe : Frontend ℚ} {clock rated tuned : ℚ} (h : d.channel dir chan = .ok (place, fe, clock))
    (hclock : 0 < clock) (hfe : fe.SetAgainst rated tuned) :
    d.InsideWhile dir chan clock rated tuned := by
  obtain ⟨k, hk, hk512, hrate⟩ := hfe.rate
  obtain ⟨shift, hshift, hfreq⟩ := hfe.exists_shift
  constructor
  case rate_iff =>
    refine ⟨k, hk, hk512, fun looks => hrate ▸ answer_of_ask rfl h rfl, ?_⟩
    rw [inside_rate_iff h, hrate]
    exact Frontend.divided_mem_rateRange_iff hk
  case rate =>
    rintro rfl
    rw [inside_rate_iff h, hrate]
    exact Frontend.divided_mem_rateRange hclock hk hk512
  case freq_iff =>
    refine ⟨fe.rf, shift, hfe.rf, hshift, fun looks => hfreq ▸ answer_of_ask rfl h rfl, ?_⟩
    rw [inside_freq_iff h, hfreq]
    exact Frontend.mem_freqRange_iff
  case freq =>
    intro hle
    rw [inside_freq_iff h]
    exact hfe.freq_mem hle

/-- After any calls on a radio and its streams, accepted or refused, the rate of every channel lies
in its range while its board has the clock rate that the rate was last set against, and the
frequency while that clock rate is not lower than when it was last tuned. -/
theorem inside_after_happenings {defaults g : Geometry ℚ} {args addr : Address} {opened : Device ℚ}
    (hsize : Geometry.ofAddress defaults args = .ok g) (hmake : make addr g = .ok opened)
    (happenings : List (Happening ℚ)) :
    let d := happenings.foldl Device.after opened
    let rated := lastClock g.clockRate (opened.settings Call.setsRate happenings)
    let tuned := lastClock g.clockRate (opened.settings Call.tunes happenings)
    ∀ dir chan, chan < d.channelCount dir → ∃ place fe clock,
      d.channel dir chan = .ok (place, fe, clock) ∧
        d.InsideWhile dir chan clock (rated dir place.frontend) (tuned dir place.frontend) := by
  intro d rated tuned dir chan hchan
  have hrouted : d.Routed := routed_foldl_after (routed_make hsize hmake) happenings
  have htune : d.InTune rated tuned := inTune_foldl_after (inTune_make hsize hmake) happenings
  obtain ⟨place, fe, clock, -, -, hchannel, -⟩ := hrouted.channel_of_lt hchan
  obtain ⟨hclock, hfe⟩ := htune.frontend_of_channel hchannel
  exact ⟨place, fe, clock, hchannel, insideWhile_of_setAgainst hchannel hclock hfe⟩

/-- The board is slowed down, and then the rate of the first channel is set and it is tuned. -/
def slowedFirst : List (Happening ℚ) :=
  [.call (fun _ => 0) (.setClockRate 500000 0), .call (fun _ => 0) (.setRate .rx 1000000 0),
    .call (fun _ => 0) (.tune .rx (.simple 6010000000) 0)]

/-- What is set after the board was slowed down lies in the ranges. -/
theorem inside_after_slowedFirst : ∃ (g : Geometry ℚ) (opened : Device ℚ),
    Geometry.ofAddress Geometry.standard Address.empty = .ok g ∧
      make Address.empty g = .ok opened ∧
      let d := slowedFirst.foldl Device.after opened
      d.Inside (.rate .rx 0) (.rates .rx 0) ∧ d.Inside (.freq .rx 0) (.freqRange .rx 0) := by
  obtain ⟨g, opened, hsize, hmake, htest⟩ := exists_opened Geometry.standard Address.empty
    Address.empty
    (fun opened : Device ℚ =>
      let d := slowedFirst.foldl Device.after opened
      let last := fun kind => lastClock opened.geometry.clockRate (opened.settings kind slowedFirst)
      0 < d.channelCount .rx &&
      match d.channel .rx 0 with
      | .ok (place, _, clock) =>
        clock = last Call.setsRate .rx place.frontend && last Call.tunes .rx place.frontend ≤ clock
      | .error _ => false)
    (by decide +kernel)
  refine ⟨g, opened, hsize, hmake, ?_⟩
  intro d
  obtain ⟨hcount, htest⟩ := Bool.and_eq_true_iff.1 htest
  obtain ⟨place, fe, clock, hchannel, hinside⟩ :=
    inside_after_happenings hsize hmake slowedFirst .rx 0 (of_decide_eq_true hcount)
  rw [(size_of_make hmake).1, hchannel] at htest
  obtain ⟨hrated, htuned⟩ := Bool.and_eq_true_iff.1 htest
  exact ⟨hinside.rate (of_decide_eq_true hrated), hinside.freq (of_decide_eq_true htuned)⟩

/-- The first channel is tuned, and then the board is slowed down. -/
def slowedLast : List (Happening ℚ) :=
  [.call (fun _ => 0) (.tune .rx (.simple 6010000000) 0),
    .call (fun _ => 0) (.setClockRate 500000 0)]

/-- What was set before the board was slowed down lies in the ranges no more. -/
theorem outside_after_slowedLast : ∃ (g : Geometry ℚ) (opened : Device ℚ),
    Geometry.ofAddress Geometry.standard Address.empty = .ok g ∧
      make Address.empty g = .ok opened ∧
      let d := slowedLast.foldl Device.after opened
      ¬ d.Inside (.rate .rx 0) (.rates .rx 0) ∧ ¬ d.Inside (.freq .rx 0) (.freqRange .rx 0) := by
  obtain ⟨g, opened, hsize, hmake, htest⟩ := exists_opened Geometry.standard Address.empty
    Address.empty
    (fun opened : Device ℚ =>
      match (slowedLast.foldl Device.after opened).channel .rx 0 with
      | .ok (_, fe, clock) =>
        !(Frontend.rateRange clock).contains fe.rate && !(Frontend.freqRange clock).contains fe.freq
      | .error _ => false)
    (by decide +kernel)
  refine ⟨g, opened, hsize, hmake, ?_⟩
  intro d
  split at htest
  next place fe clock hchannel =>
    obtain ⟨hrate, hfreq⟩ := Bool.and_eq_true_iff.1 htest
    rw [inside_rate_iff hchannel, inside_freq_iff hchannel]
    exact ⟨by simpa using hrate, by simpa using hfreq⟩
  · cases htest

end Device

end SoftRadio
