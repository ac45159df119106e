import SoftRadio.Proofs.Device.Channels
import SoftRadio.Proofs.Frontend.InPlace
import SoftRadio.Proofs.PropertyTree

/-!
# A radio is written in place

What a call comes to is computed at once, and if it fails there is no new radio.  The radio itself
is written in place: the front end of a channel, a motherboard, the mailboxes, a node of the tree.
A failure would leave what was written before it.  It leaves nothing, since each call looks at all
that may be refused before it writes.

* `onBoard`, `onChannel`, `onTree`: steps on a part of a radio.
* `inPlace`: a call step by step; `endsAs_inPlace`: it comes to what `perform` says.
* `inPlace_of_refused`: a call that is refused has written nothing.
* `happen`: what can happen on a radio, step by step; `after_eq_happen`, and over a whole history
  `foldl_after_eq_happen`: what is left is what `after` says, unless a call crashes while it spreads
  a gain over the elements.
-/

namespace SoftRadio

/-- The calls that write gain elements one after the other. -/
def Call.Spreads {α : Type} : Call α → Prop
  | .setGain _ _ name _ => name = ""
  | .setNormalizedGain .. => True
  | _ => False

namespace Device

open Steps

variable {α β ρ ρ' : Type} {F : Fault → Prop}

/-! ## Parts of a radio -/

/-- Steps on one motherboard. -/
def onBoard (index : Nat) (x : Steps (Board α) β) : Steps (Device α) β :=
  within (·.board index) (·.setBoard index) x

/-- Steps on the front end of a channel; `x` gets the clock rate of its motherboard. -/
def onChannel (dir : Direction) (chan : Nat) (x : α → Steps (Frontend α) β) :
    Steps (Device α) β := do
  let place ← look (·.locate dir chan)
  let b ← look (·.board place.board)
  within (·.frontend dir place.frontend) (·.setFrontend dir place.frontend) (x b.clockRate)

def onTree (x : Steps PropertyTree β) : Steps (Device α) β :=
  on (·.tree) (fun d t => { d with tree := t }) x

/-- To write what is there is to write nothing. -/
theorem setFrontend_self {d : Device α} {dir : Direction} {index : Nat} {fe : Frontend α}
    (h : d.frontend dir index = .ok fe) : d.setFrontend dir index fe = d := by
  unfold frontend at h
  split at h
  next hget =>
    cases h
    obtain ⟨hlt, hget⟩ := List.getElem?_eq_some_iff.1 hget
    unfold setFrontend
    rw [← hget, List.set_getElem_self, Sides.set_get_self]
  · cases h

variable (d : Device α)

theorem sets_onBoard {index : Nat} {x : Steps (Board α) Unit} {r : Board α → Except Fault (Board α)}
    (h : ∀ b, d.board index = .ok b → Sets F x b (r b)) :
    Sets F (onBoard index x) d (d.board index >>= fun b => d.setBoard index <$> r b) :=
  .within h (fun _ => setBoard_self) fun _ _ => rfl

theorem sets_onBoard_modify (index : Nat) (f : Board α → Board α) :
    Sets F (onBoard index (modify f)) d (d.changeBoard index f) :=
  d.sets_onBoard fun _ _ => sets_modify f

theorem sets_onTree {x : Steps PropertyTree Unit} {r : Except Fault PropertyTree}
    (h : Sets F x d.tree r) :
    Sets F (onTree x) d ((fun t => { d with tree := t }) <$> r) :=
  h.on rfl fun _ _ => rfl

/-- Steps on a front end come to what is computed of it, with the radio around it. -/
theorem endsAs_onChannel {dir : Direction} {chan : Nat} {x : α → Steps (Frontend α) β}
    {pack : β → Frontend α → ρ} {pack' : β → Device α → ρ'}
    {f : Frontend α → α → Except Fault ρ} (put : Location → ρ → ρ')
    (h : ∀ fe clock, EndsAs F pack (x clock) fe (f fe clock))
    (hput : ∀ place b fe, put place (pack b fe) =
      pack' b (d.setFrontend dir place.frontend fe)) :
    EndsAs F pack' (onChannel dir chan x) d
      (d.channel dir chan >>= fun c => put c.1 <$> f c.2.1 c.2.2) := by
  unfold channel
  simp only [bind_assoc, pure_bind]
  refine endsAs_bind rfl fun place _ => endsAs_bind rfl fun b _ => ?_
  exact .within (fun fe _ => h fe b.clockRate) (fun _ => setFrontend_self) fun _ _ => hput _ _ _

theorem sets_onChannel {dir : Direction} {chan : Nat} {x : α → Steps (Frontend α) Unit}
    {f : Frontend α → α → Except Fault (Frontend α)}
    (h : ∀ fe clock, Sets F (x clock) fe (f fe clock)) :
    Sets F (onChannel dir chan x) d (d.change dir chan f) :=
  d.endsAs_onChannel (fun place fe => d.setFrontend dir place.frontend fe) h fun _ _ _ => rfl

/-! ## The calls -/

variable [Scalar α]

def setClockRateInPlace (rate : α) (index : Nat) : Steps (Device α) Unit := do
  if !(Scalar.isFinite rate && Scalar.lt (Scalar.ofInt 0) rate) then
    check (refuse (.badClockRate (Scalar.text rate)))
  else onBoard index (modify ({ · with clockRate := rate }))

/-- Set what one of two things is taken from, which `write` does. -/
def setSourceInPlace (what source : String) (index : Nat) (write : Board α → Board α) :
    Steps (Device α) Unit := do
  check (checkSource what source)
  onBoard index (modify write)

/-- One motherboard after the other gets the time; nothing can fail between them. -/
def setTimeUnknownPulseInPlace (time : TimeSpec α) (looks : Nat → α) : Steps (Device α) Unit := do
  let count ← look fun d => .ok d.boards.length
  (List.range count).forM fun i =>
    onBoard i (modify ({ · with clock := Clock.setNextPulse (looks i) time }))

def issueInPlace (command : StreamCommand α) (chan : Nat) (elapsed : α) :
    Steps (Device α) Unit := do
  let place ← look (·.locate .rx chan)
  let b ← look (·.board place.board)
  let now ← check (b.clock.now elapsed)
  modify fun d => { d with office := d.office.issue command now place.frontend }

def issueOnInPlace (r : Receiver α) (command : StreamCommand α) (elapsed : α) :
    Steps (Device α) Unit := do
  let b ← look (·.board r.board)
  let now ← check (b.clock.now elapsed)
  modify fun d => { d with office := d.office.issueAll command now r.channels }

/-- Every pair is looked at before the specification is written. -/
def setSubdevSpecInPlace (dir : Direction) (spec : SubdevSpec) (index : Nat) :
    Steps (Device α) Unit := do
  let _ ← look (·.board index)
  if spec.isEmpty then check (refuse .emptySubdevSpec)
  else
    look (·.checkPairs dir [] spec.pairs)
    onBoard index (modify (·.setSpec dir spec))

/-- Whether the attribute can be written is looked at before the register is written. -/
def writePinsInPlace (a : GpioAttr) (value mask : UInt32) : Steps Gpio Unit := do
  if a = .readback then check (refuse (.readOnlyGpioAttr a.name))
  else modify fun g =>
    let new := (g.register a &&& ~~~mask) ||| (value &&& mask)
    ⟨fun b => if b = a then new else g.register b⟩

def setGpioInPlace (bank attr : String) (value mask : UInt32) (index : Nat) :
    Steps (Device α) Unit :=
  onBoard index do
    let a ← check (Gpio.attr bank attr)
    on (·.gpio) (fun b gpio => { b with gpio := gpio }) (writePinsInPlace a value mask)

def setNormalizedGainInPlace (dir : Direction) (share : α) (chan : Nat) :
    Steps (Device α) Unit := do
  let gain ← look fun d =>
    NormalizedGain.target (d.ask dir chan fun fe _ => fe.gainRange "") share
  onChannel dir chan fun _ => Frontend.setGainInPlace gain ""

/-- What a call answers. -/
def answer (d : Device α) (looks : Nat → α) (call : Call α) : Except Fault (Answer α) :=
  Prod.fst <$> d.perform looks call

/-- A call that writes answers that it is done. -/
def done (x : Steps (Device α) Unit) : Steps (Device α) (Answer α) := do
  x
  return .done

/-- A call step by step, on the radio that is there. -/
def inPlace (looks : Nat → α) : Call α → Steps (Device α) (Answer α)
  | .setClockRate rate i => done (setClockRateInPlace rate i)
  | .setTimeNow t i => done (onBoard i (modify ({ · with clock := Clock.setNow (looks 0) t })))
  | .setTimeNextPulse t i =>
    done (onBoard i (modify ({ · with clock := Clock.setNextPulse (looks 0) t })))
  | .setTimeUnknownPulse t => done (setTimeUnknownPulseInPlace t looks)
  | .setCommandTime t i => done (onBoard i (modify ({ · with commandTime := some t })))
  | .clearCommandTime i => done (onBoard i (modify ({ · with commandTime := none })))
  | .issue command chan => done (issueInPlace command chan (looks 0))
  | .setTimeSource source i =>
    done (setSourceInPlace "time" source i ({ · with timeSource := source }))
  | .setClockSource source i =>
    done (setSourceInPlace "clock" source i ({ · with clockSource := source }))
  | .setClockSourceOut enable i => done (onBoard i (modify ({ · with clockSourceOut := enable })))
  | .setRegister addr data i => done (onBoard i (modify fun b =>
    { b with registers := fun a => if a = addr then some data else b.registers a }))
  | .setSubdevSpec dir spec i => done (setSubdevSpecInPlace dir spec i)
  | .setRate dir rate chan => done (onChannel dir chan (Frontend.setRateInPlace rate))
  | .tune dir request chan => do
    let result ← onChannel dir chan (Frontend.tuneInPlace request)
    return .tuned result
  | .setGain dir gain name chan =>
    done (onChannel dir chan fun _ => Frontend.setGainInPlace gain name)
  | .setNormalizedGain dir share chan => done (setNormalizedGainInPlace dir share chan)
  | .setAntenna dir antenna chan =>
    done (onChannel dir chan fun _ => Frontend.setAntennaInPlace antenna)
  | .setBandwidth dir bandwidth chan =>
    done (onChannel dir chan fun _ => Frontend.setBandwidthInPlace bandwidth)
  | .setDcOffset dir enable chan =>
    done (onChannel dir chan fun _ => modify ({ · with dcOffsetEnabled := enable }))
  | .setIqBalance dir enable chan =>
    done (onChannel dir chan fun _ => modify ({ · with iqBalanceEnabled := enable }))
  | .setAgc enable chan =>
    done (onChannel .rx chan fun _ => modify ({ · with agcEnabled := enable }))
  | .setGpio bank attr value mask i => done (setGpioInPlace bank attr value mask i)
  | .createProperty path v => done (onTree (PropertyTree.createInPlace path v))
  | .setProperty path v => done (onTree (PropertyTree.setInPlace path v))
  | question => look fun d => d.answer looks question

/-! ## In place and at once -/

theorem sets_setClockRateInPlace (rate : α) (index : Nat) :
    Sets F (setClockRateInPlace rate index) d (d.setClockRate rate index) :=
  .ite (fun _ => endsAs_refuse _) fun _ => d.sets_onBoard_modify index _

omit [Scalar α] in
theorem sets_setSourceInPlace (what source : String) (index : Nat) (write : Board α → Board α) :
    Sets F (setSourceInPlace what source index write) d
      (checkSource what source >>= fun _ => d.changeBoard index write) :=
  endsAs_bind rfl fun _ _ => d.sets_onBoard_modify index write

omit [Scalar α] in
/-- The motherboards from one on are written, one after the other. -/
theorem run_forM_onBoard (f : Nat → Board α → Board α) (before : List (Board α))
    {after : List (Board α)} (h : d.boards = before ++ after) :
    (List.range' before.length after.length).forM (fun i => onBoard i (modify (f i))) d =
      (.ok (), { d with boards :=
        before ++ (after.zipIdx before.length).map fun p => f p.2 p.1 }) := by
  induction after generalizing d before with
  | nil =>
    rw [List.append_nil] at h
    simp only [List.length_nil, List.range'_zero, List.zipIdx_nil, List.map_nil, List.append_nil,
      ← h]
    rfl
  | cons b after ih =>
    have hb : d.board before.length = .ok b := by
      rw [board_eq_ok_iff, h]
      simp
    have hfirst : onBoard before.length (modify (f before.length)) d =
        (.ok (), d.setBoard before.length (f before.length b)) :=
      run_within (fun d : Device α => d.board before.length) hb _ _
    have hrest := ih (d.setBoard before.length (f before.length b))
      (before ++ [f before.length b]) (by simp [setBoard, h])
    rw [List.length_cons, List.range'_succ]
    refine (bind_of_ok hfirst).trans ?_
    simpa [setBoard] using hrest

theorem sets_setTimeUnknownPulseInPlace (time : TimeSpec α) (looks : Nat → α) :
    Sets F (setTimeUnknownPulseInPlace time looks) d (.ok (d.setTimeUnknownPulse time looks)) := by
  refine endsAs_ok_bind (b := d.boards.length) rfl ?_
  rw [List.range_eq_range']
  exact endsAs_of_ok (d.run_forM_onBoard _ [] rfl)

theorem sets_issueInPlace (command : StreamCommand α) (chan : Nat) (elapsed : α) :
    Sets F (issueInPlace command chan elapsed) d (d.issue command chan elapsed) :=
  endsAs_bind rfl fun _ _ => endsAs_bind rfl fun _ _ => endsAs_bind rfl fun _ _ => sets_modify _

theorem sets_issueOnInPlace (r : Receiver α) (command : StreamCommand α) (elapsed : α) :
    Sets F (issueOnInPlace r command elapsed) d (d.issueOn r command elapsed) :=
  endsAs_bind rfl fun _ _ => endsAs_bind rfl fun _ _ => sets_modify _

omit [Scalar α] in
theorem sets_setSubdevSpecInPlace (dir : Direction) (spec : SubdevSpec) (index : Nat) :
    Sets F (setSubdevSpecInPlace dir spec index) d (d.setSubdevSpec dir spec index) := by
  refine endsAs_bind rfl fun b hb => .ite (fun _ => endsAs_refuse _) fun _ => ?_
  refine endsAs_bind rfl fun _ _ => ?_
  have hwrite := d.sets_onBoard_modify (F := F) index (·.setSpec dir spec)
  unfold changeBoard at hwrite
  rw [hb] at hwrite
  exact hwrite

theorem sets_writePinsInPlace (g : Gpio) (a : GpioAttr) (value mask : UInt32) :
    Sets F (writePinsInPlace a value mask) g (g.write a value mask) :=
  .ite (fun _ => endsAs_refuse _) fun _ => sets_modify _

omit [Scalar α] in
theorem sets_setGpioInPlace (bank attr : String) (value mask : UInt32) (index : Nat) :
    Sets F (setGpioInPlace bank attr value mask index) d
      (d.setGpio bank attr value mask index) := by
  have hwrite : d.setGpio bank attr value mask index =
      d.board index >>= fun b => d.setBoard index <$> (Gpio.attr bank attr >>= fun a =>
        (fun gpio => { b with gpio := gpio }) <$> b.gpio.write a value mask) := by
    simp only [setGpio, map_eq_pure_bind, bind_assoc, pure_bind]
  rw [hwrite]
  refine d.sets_onBoard fun b _ => endsAs_bind rfl fun a _ => ?_
  exact (sets_writePinsInPlace b.gpio a value mask).on rfl fun _ _ => rfl

theorem sets_setNormalizedGainInPlace (dir : Direction) (share : α) (chan : Nat)
    (hF : ∀ fault, F fault → ∃ e, fault = .error e) :
    Sets F (setNormalizedGainInPlace dir share chan) d (d.setNormalizedGain dir share chan) :=
  endsAs_bind rfl fun gain _ => d.sets_onChannel fun fe _ =>
    fe.sets_setGainInPlace gain "" fun _ => hF

omit [Scalar α] in
theorem settle_eq_map (changed : Except Fault (Device α)) :
    settle changed = Prod.mk .done <$> changed := by
  cases changed <;> rfl

omit [Scalar α] in
variable {d} in
theorem endsAs_done {x : Steps (Device α) Unit} {changed : Except Fault (Device α)}
    (h : Sets F x d changed) : EndsAs F Prod.mk (done x) d (settle changed) := by
  rw [settle_eq_map]
  exact h.bind_pure (fun _ => Answer.done) fun _ _ => rfl

theorem endsAs_tune (looks : Nat → α) (dir : Direction) (request : TuneRequest α) (chan : Nat) :
    EndsAs F Prod.mk (inPlace looks (.tune dir request chan)) d
      (d.perform looks (.tune dir request chan)) := by
  let around (place : Location) (p : TuneResult α × Frontend α) : TuneResult α × Device α :=
    (p.1, d.setFrontend dir place.frontend p.2)
  have hperform : d.perform looks (.tune dir request chan) =
      (fun p => (.tuned p.1, p.2)) <$> (d.channel dir chan >>= fun c =>
        around c.1 <$> c.2.1.tune request c.2.2) := by
    simp only [perform, map_eq_pure_bind, bind_assoc, pure_bind, around]
  have htune : EndsAs F Prod.mk (onChannel dir chan (Frontend.tuneInPlace request)) d
      (d.channel dir chan >>= fun c => around c.1 <$> c.2.1.tune request c.2.2) :=
    d.endsAs_onChannel around (fun fe clock => fe.endsAs_tuneInPlace request clock)
      fun _ _ _ => rfl
  rw [hperform]
  exact htune.bind_pure Answer.tuned fun _ _ => rfl

/-- A question changes nothing. -/
theorem endsAs_answer {looks : Nat → α} {question : Call α} {a : Except Fault (Answer α)}
    (h : d.perform looks question = d.reply a) :
    EndsAs F Prod.mk (look fun d => d.answer looks question) d (d.perform looks question) := by
  have hreply : d.perform looks question = (·, d) <$> d.answer looks question := by
    unfold answer
    rw [h]
    cases a <;> rfl
  rw [hreply]
  exact endsAs_of_reads rfl

/-- Step by step a call comes to what it comes to at once, and leaves nothing behind if it fails.
Only a crash while a gain is spread is left out, which would leave the elements before it set. -/
theorem endsAs_inPlace (looks : Nat → α) (call : Call α)
    (hF : call.Spreads → ∀ fault, F fault → ∃ e, fault = .error e) :
    EndsAs F Prod.mk (inPlace looks call) d (d.perform looks call) := by
  cases call with
  | setClockRate rate i => exact endsAs_done (d.sets_setClockRateInPlace rate i)
  | setTimeNow | setTimeNextPulse | setCommandTime | clearCommandTime | setClockSourceOut
  | setRegister => exact endsAs_done (d.sets_onBoard_modify _ _)
  | setTimeUnknownPulse t => exact endsAs_done (d.sets_setTimeUnknownPulseInPlace t looks)
  | issue command chan => exact endsAs_done (d.sets_issueInPlace command chan (looks 0))
  | setTimeSource | setClockSource => exact endsAs_done (d.sets_setSourceInPlace _ _ _ _)
  | setSubdevSpec dir spec i => exact endsAs_done (d.sets_setSubdevSpecInPlace dir spec i)
  | setRate dir rate chan =>
    exact endsAs_done (d.sets_onChannel fun fe clock => fe.sets_setRateInPlace rate clock)
  | tune dir request chan => exact d.endsAs_tune looks dir request chan
  | setGain dir gain name chan =>
    exact endsAs_done (d.sets_onChannel fun fe _ => fe.sets_setGainInPlace gain name hF)
  | setNormalizedGain dir share chan =>
    exact endsAs_done (d.sets_setNormalizedGainInPlace dir share chan (hF trivial))
  | setAntenna dir antenna chan =>
    exact endsAs_done (d.sets_onChannel fun fe _ => fe.sets_setAntennaInPlace antenna)
  | setBandwidth dir bandwidth chan =>
    exact endsAs_done (d.sets_onChannel fun fe _ => fe.sets_setBandwidthInPlace bandwidth)
  | setDcOffset | setIqBalance | setAgc =>
    exact endsAs_done (d.sets_onChannel fun _ _ => sets_modify _)
  | setGpio bank attr value mask i =>
    exact endsAs_done (d.sets_setGpioInPlace bank attr value mask i)
  | createProperty path v =>
    exact endsAs_done (d.sets_onTree (PropertyTree.sets_createInPlace d.tree path v))
  | setProperty path v =>
    exact endsAs_done (d.sets_onTree (PropertyTree.sets_setInPlace d.tree path v))
  | _ => exact d.endsAs_answer rfl

/-- A call that is refused has written nothing. -/
theorem inPlace_of_refused {looks : Nat → α} {call : Call α} {e : Error}
    (h : (inPlace looks call d).1 = .error (.error e)) : (inPlace looks call d).2 = d := by
  have hcall := d.endsAs_inPlace (F := fun fault => ∃ e, fault = .error e) looks call
    fun _ _ => id
  exact hcall.kept (.error e) ⟨e, rfl⟩ h

/-! ## What is left of a radio -/

/-- What happens, step by step, on the radio that is there. -/
def happen : Happening α → Steps (Device α) Unit
  | .call looks call => do
    let _ ← inPlace looks call
    return
  | .issueOn other command elapsed => issueOnInPlace other command elapsed
  | .round .. => pure ()

/-- If a gain is spread, then without a crash: it would leave the elements before it set. -/
def SpreadsThrough (h : Happening α) : Prop :=
  ∀ looks call text, h = .call looks call → call.Spreads →
    (inPlace looks call d).1 ≠ .error (.crash text)

/-- What is left of a radio is what the steps have written, however they end. -/
theorem after_eq_happen (h : Happening α) (hspread : d.SpreadsThrough h) :
    d.after h = (happen h d).2 := by
  cases h with
  | round => rfl
  | issueOn other command elapsed =>
    have hissue := d.sets_issueOnInPlace (F := fun _ => True) other command elapsed
    unfold after happen
    dsimp only
    rcases hissue.outcome with ⟨_, d', hrun, hd'⟩ | ⟨fault, d', hrun, hfault, hkept⟩
    · rw [hd', hrun]
    · rw [hfault, hrun, hkept trivial]
  | call looks call =>
    have hcall := d.endsAs_inPlace (F := fun fault => call.Spreads → ∃ e, fault = .error e) looks
      call fun hspreads fault hfault => hfault hspreads
    unfold after
    dsimp only
    rcases hcall.outcome with ⟨a, d', hrun, hd'⟩ | ⟨fault, d', hrun, hfault, hkept⟩
    · have hhappen : happen (.call looks call) d = (.ok (), d') := bind_of_ok hrun
      rw [hd', hhappen]
    · have hhappen : happen (.call looks call) d = (.error fault, d') := bind_of_error hrun
      rw [hfault, hhappen]
      refine (hkept fun hspreads => ?_).symm
      cases fault with
      | error e => exact ⟨e, rfl⟩
      | crash text => exact absurd (congrArg Prod.fst hrun) (hspread looks call text rfl hspreads)

/-- Over a history: each call starts from what the steps of those before it have written, those that
have failed among them. -/
theorem foldl_after_eq_happen (happenings : List (Happening α))
    (hspread : ∀ past h future, happenings = past ++ h :: future →
      (past.foldl after d).SpreadsThrough h) :
    happenings.foldl after d = happenings.foldl (fun d h => (happen h d).2) d := by
  induction happenings generalizing d with
  | nil => rfl
  | cons h rest ih =>
    have hfirst : d.after h = (happen h d).2 := d.after_eq_happen h (hspread [] h rest rfl)
    rw [List.foldl_cons, List.foldl_cons, ← hfirst]
    refine ih (d.after h) fun past next future hrest => ?_
    exact hspread (h :: past) next future (congrArg (h :: ·) hrest)

end Device

end SoftRadio
