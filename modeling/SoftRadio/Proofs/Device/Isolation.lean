import SoftRadio.Proofs.Device.InPlace

/-!
# Settings keep to their channel

A setting of one channel is not seen on another, and a setting that is refused is not seen at all.
The second is not for free: a front end is written in place, and what was written before a failure
would stay.

* `Call.sets`, `Call.asks`: the calls that set something of a front end, and those that ask.
* `performInPlace`: a call with its writes in place; `perform_eq_performInPlace` ties it to
  `perform`.
* `DiffersAt`: where a setting writes, however it ends; `differsAt_performInPlace`.
* `SameChannel`: what is asked of a channel hangs on; `Routed.sameChannel_setFrontend`.
* `isolated_after_happenings`: both, after any calls.
-/

namespace SoftRadio

/-- The channel whose front end a call sets. -/
def Call.sets {α : Type} : Call α → Option (Direction × Nat)
  | .setRate dir _ chan | .tune dir _ chan | .setGain dir _ _ chan | .setNormalizedGain dir _ chan
  | .setAntenna dir _ chan | .setBandwidth dir _ chan | .setDcOffset dir _ chan
  | .setIqBalance dir _ chan => some (dir, chan)
  | .setAgc _ chan => some (.rx, chan)
  | _ => none

/-- The channel that a call asks something about. -/
def Call.asks {α : Type} : Call α → Option (Direction × Nat)
  | .info dir chan | .subdevName dir chan | .rate dir chan | .rates dir chan | .freq dir chan
  | .freqRange dir chan | .rfRange dir chan | .gain dir _ chan | .gainRange dir _ chan
  | .gainNames dir chan | .normalizedGain dir chan | .antenna dir chan | .antennas dir chan
  | .bandwidth dir chan | .bandwidthRange dir chan | .sensor dir _ chan
  | .sensorNames dir chan => some (dir, chan)
  | _ => none

namespace Device

open Steps

variable {α : Type} {d d' : Device α} {dir : Direction} {chan : Nat} {β : Type}

section

variable [Scalar α]

/-- What a call answers and the radio that it leaves, with its writes in place. -/
def performInPlace (d : Device α) (looks : Nat → α) (call : Call α) :
    Except Fault (Answer α) × Device α :=
  inPlace looks call d

/-- With its writes in place a call answers the same and, if it succeeds, comes to the same. -/
theorem perform_eq_performInPlace (d : Device α) (looks : Nat → α) (call : Call α) :
    d.perform looks call =
      (fun a => (a, (d.performInPlace looks call).2)) <$> (d.performInPlace looks call).1 :=
  (d.endsAs_inPlace (F := fun _ => False) looks call fun _ _ => False.elim).settled

end

/-! ## What a setting writes -/

/-- Two radios that differ at most in the front end of one channel. -/
def DiffersAt (d d' : Device α) (dir : Direction) (chan : Nat) : Prop :=
  d' = d ∨ ∃ place fe, d.locate dir chan = .ok place ∧ d' = d.setFrontend dir place.frontend fe

theorem differsAt_onChannel (d : Device α) (dir : Direction) (chan : Nat)
    (x : α → Steps (Frontend α) β) : DiffersAt d (onChannel dir chan x d).2 dir chan := by
  have hself : DiffersAt d d dir chan := .inl rfl
  exact look_bind_cases (P := (DiffersAt d · dir chan)) hself fun place hplace =>
    look_bind_cases (P := (DiffersAt d · dir chan)) hself fun b _ =>
      within_cases (P := (DiffersAt d · dir chan)) hself fun fe _ => .inr ⟨place, _, hplace, rfl⟩

theorem differsAt_done {x : Steps (Device α) Unit} (h : DiffersAt d (x d).2 dir chan) :
    DiffersAt d (done x d).2 dir chan := by
  unfold done
  rwa [snd_bind_pure]

variable [Scalar α]

/-- However a setting ends, it has written to the front end of its channel at most. -/
theorem differsAt_performInPlace {looks : Nat → α} {call : Call α}
    (hcall : call.sets = some (dir, chan)) :
    DiffersAt d (d.performInPlace looks call).2 dir chan := by
  cases call with
  | setRate | setGain | setAntenna | setBandwidth | setDcOffset | setIqBalance | setAgc =>
    cases hcall
    exact differsAt_done (d.differsAt_onChannel _ _ _)
  | tune dir request chan =>
    cases hcall
    have htune := d.differsAt_onChannel dir chan (Frontend.tuneInPlace request)
    rwa [← snd_bind_pure _ Answer.tuned] at htune
  | setNormalizedGain dir share chan =>
    cases hcall
    exact differsAt_done (look_bind_cases (P := (DiffersAt d · dir chan)) (.inl rfl)
      fun gain _ => d.differsAt_onChannel dir chan _)
  | _ => cases hcall

/-! ## What a question hangs on -/

/-- Two radios that a question about a channel cannot tell apart. -/
structure SameChannel (d d' : Device α) (dir : Direction) (chan : Nat) : Prop where
  geometry : d'.geometry = d.geometry
  boards : d'.boards = d.boards
  tree : d'.tree = d.tree
  channel : d'.channel dir chan = d.channel dir chan

omit [Scalar α] in
theorem fst_reply_congr {answer answer' : Except Fault (Answer α)} (h : answer' = answer) :
    Prod.fst <$> d'.reply answer' = Prod.fst <$> d.reply answer := by
  subst h
  cases answer' <;> rfl

namespace SameChannel

omit [Scalar α] in
theorem refl (d : Device α) (dir : Direction) (chan : Nat) : SameChannel d d dir chan :=
  ⟨rfl, rfl, rfl, rfl⟩

omit [Scalar α] in
theorem ask (h : SameChannel d d' dir chan) (f : Frontend α → α → Except Fault β) :
    d'.ask dir chan f = d.ask dir chan f := by
  unfold Device.ask
  rw [h.channel]

omit [Scalar α] in
theorem locate (h : SameChannel d d' dir chan) : d'.locate dir chan = d.locate dir chan :=
  locate_congr (by rw [h.boards]) (by rw [h.geometry]) chan

omit [Scalar α] in
theorem subdevName (h : SameChannel d d' dir chan) :
    d'.subdevName dir chan = d.subdevName dir chan := by
  unfold Device.subdevName
  rw [h.locate]

omit [Scalar α] in
theorem info (h : SameChannel d d' dir chan) : d'.info dir chan = d.info dir chan := by
  unfold Device.info boardName board
  rw [h.channel, h.tree, h.boards, h.subdevName]

/-- A question about the channel is answered the same. -/
theorem answer (h : SameChannel d d' dir chan) (looks : Nat → α) {question : Call α}
    (hq : question.asks = some (dir, chan)) :
    d'.answer looks question = d.answer looks question := by
  cases question with
  | info =>
    cases hq
    exact fst_reply_congr (congrArg (Answer.info <$> ·) h.info)
  | subdevName =>
    cases hq
    exact fst_reply_congr (congrArg (Answer.text <$> ·) h.subdevName)
  | antennas | bandwidthRange =>
    cases hq
    exact fst_reply_congr (congrArg ((fun _ => _) <$> ·) h.locate)
  | normalizedGain =>
    cases hq
    refine fst_reply_congr (congrArg (Answer.real <$> ·) ?_)
    unfold normalizedGain
    rw [h.ask, h.ask]
  | rate | rates | freq | freqRange | rfRange | gain | gainRange | gainNames | antenna | bandwidth
  | sensor | sensorNames =>
    cases hq
    exact fst_reply_congr (h.ask _)
  | _ => cases hq

end SameChannel

omit [Scalar α] in
/-- A channel does not see the front end of another. -/
theorem Routed.sameChannel_setFrontend (hd : d.Routed) {place : Location}
    (hplace : d.locate dir chan = .ok place) {dir' : Direction} {chan' : Nat}
    (hne : (dir', chan') ≠ (dir, chan)) (fe : Frontend α) :
    SameChannel d (d.setFrontend dir place.frontend fe) dir' chan' := by
  have hlocate : (d.setFrontend dir place.frontend fe).locate dir' chan' = d.locate dir' chan' :=
    locate_congr (by rfl) (by rfl) chan'
  refine ⟨rfl, rfl, rfl, ?_⟩
  unfold channel
  rw [hlocate]
  cases hplace' : d.locate dir' chan' with
  | error fault => rfl
  | ok place' =>
    have hother : (d.setFrontend dir place.frontend fe).frontend dir' place'.frontend =
        d.frontend dir' place'.frontend := by
      unfold frontend Device.setFrontend
      dsimp only
      by_cases hdir : dir' = dir
      · subst hdir
        have hindex : place.frontend ≠ place'.frontend := fun heq =>
          hne (congrArg (Prod.mk dir') (hd.eq_of_frontend_eq hplace hplace' heq).symm)
        rw [Sides.get_set_self, List.getElem?_set_ne hindex]
      · rw [Sides.get_set_of_ne _ _ hdir]
    dsimp only [bind, Except.bind]
    rw [hother]
    rfl

/-- After any calls on a radio and its streams: whatever a setting of one channel comes to, every
question about another channel is answered as before, and a setting that is refused changes
nothing.  This is so although the setting writes in place, in which it comes to the same as the
call. -/
theorem isolated_after_happenings {defaults g : Geometry α} {args addr : Address}
    {opened : Device α} (hsize : Geometry.ofAddress defaults args = .ok g)
    (hmake : make addr g = .ok opened) (happenings : List (Happening α)) (looks : Nat → α)
    {setting : Call α} {dir : Direction} {chan : Nat} (hset : setting.sets = some (dir, chan)) :
    let d := happenings.foldl after opened
    let result := (d.performInPlace looks setting).1
    let d' := (d.performInPlace looks setting).2
    d.perform looks setting = (fun a => (a, d')) <$> result ∧
      (∀ later question dir' chan', question.asks = some (dir', chan') →
        (dir', chan') ≠ (dir, chan) → d'.answer later question = d.answer later question) ∧
      ∀ e, result = .error (.error e) → d' = d := by
  intro d result d'
  have hrouted : d.Routed := routed_foldl_after (routed_make hsize hmake) happenings
  refine ⟨d.perform_eq_performInPlace looks setting, fun later question dir' chan' hq hne => ?_,
    fun e => d.inPlace_of_refused⟩
  have hsame : SameChannel d d' dir' chan' := by
    have hdiffers : DiffersAt d d' dir chan := differsAt_performInPlace hset
    rcases hdiffers with hd' | ⟨place, fe, hplace, hd'⟩
    · rw [hd']
      exact SameChannel.refl d dir' chan'
    · rw [hd']
      exact hrouted.sameChannel_setFrontend hplace hne fe
  exact hsame.answer later hq

/-- The two receive slots of the first board are swapped. -/
def swapped : List (Happening ℚ) :=
  [.call (fun _ => 0) (.setSubdevSpec .rx ⟨[⟨"B", "0"⟩, ⟨"A", "0"⟩]⟩ 0)]

/-- The gain of channel 0 becomes 40 and channel 1 does not see it; an element that is not there
is refused and nothing changes. -/
theorem isolated_swapped : ∃ (g : Geometry ℚ) (opened : Device ℚ),
    Geometry.ofAddress Geometry.standard Address.empty = .ok g ∧
      make Address.empty g = .ok opened ∧
      let d := swapped.foldl after opened
      let set := (d.performInPlace (fun _ => 0) (.setGain .rx 40 "" 0)).2
      (set.ask .rx 0 fun fe _ => fe.gain "").toOption = some 40 ∧
        set.answer (fun _ => 0) (.gain .rx "" 1) = d.answer (fun _ => 0) (.gain .rx "" 1) ∧
        (d.performInPlace (fun _ => 0) (.setGain .rx 40 "VGA" 0)).2 = d := by
  obtain ⟨g, opened, hsize, hmake, htest⟩ := exists_opened Geometry.standard Address.empty
    Address.empty
    (fun opened : Device ℚ =>
      let d := swapped.foldl after opened
      let set := (d.performInPlace (fun _ => 0) (.setGain .rx 40 "" 0)).2
      (set.ask .rx 0 fun fe _ => fe.gain "").toOption = some 40 &&
        match (d.performInPlace (fun _ => 0) (.setGain .rx 40 "VGA" 0)).1 with
        | .error (.error _) => true
        | _ => false)
    (by decide +kernel)
  refine ⟨g, opened, hsize, hmake, ?_⟩
  intro d set
  obtain ⟨hset, hrefused⟩ := Bool.and_eq_true_iff.1 htest
  refine ⟨of_decide_eq_true hset, ?_, ?_⟩
  · exact (isolated_after_happenings hsize hmake swapped (fun _ => 0) rfl).2.1 (fun _ => 0) _ .rx 1
      rfl (by decide)
  · split at hrefused
    next e he =>
      exact (isolated_after_happenings hsize hmake swapped (fun _ => 0) rfl).2.2 e he
    · cases hrefused

end Device

end SoftRadio
