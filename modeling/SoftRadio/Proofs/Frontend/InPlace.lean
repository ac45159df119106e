import SoftRadio.Frontend
import SoftRadio.Proofs.Steps

/-!
# Settings of a front end, in place

A front end is computed anew where it is set; the radio writes its fields in place.  A setting
checks what it is given, then what it comes to, and writes last.  The overall gain is different: it
is written element by element, and the value of the second element hangs on what the first one
took.  That a refusal leaves nothing behind is due there to the range of an element, which takes
any value.

* `setRateInPlace`, `tuneInPlace`, `setGainInPlace`, `setAntennaInPlace`, `setBandwidthInPlace`.
* `NeverRefuses`: a step that may crash but reports no error; `neverRefuses_fill`.
* `sets_setRateInPlace` and its likes: in place and at once, a setting comes to the same.
-/

namespace SoftRadio

/-! ## Steps that are never refused -/

section

variable {β γ : Type}

/-- A step that may crash but reports no error. -/
def NeverRefuses (x : Except Fault β) : Prop := ∀ e, x ≠ .error (.error e)

theorem neverRefuses_ok (b : β) : NeverRefuses (.ok b) := nofun

theorem NeverRefuses.bind {x : Except Fault β} {f : β → Except Fault γ} (hx : NeverRefuses x)
    (hf : ∀ b, NeverRefuses (f b)) : NeverRefuses (x >>= f) := by
  intro e he
  cases x with
  | error fault => exact hx e (by simpa [Bind.bind, Except.bind] using he)
  | ok b => exact hf b e he

end

section

variable {α : Type} [Scalar α]

theorem Scalar.neverRefuses_clamp (x low high : α) : NeverRefuses (Scalar.clamp x low high) := by
  intro e he
  unfold Scalar.clamp at he
  split at he <;> cases he

theorem Range.neverRefuses_nearest (r : Range α) (value : α) (snap : Bool) :
    NeverRefuses (r.nearest value snap) := by
  refine (Scalar.neverRefuses_clamp _ _ _).bind fun inside => ?_
  split <;> exact neverRefuses_ok _

theorem Ranges.neverRefuses_clipFrom (value : α) (snap : Bool) (best : α) (far : Option α)
    (rs : List (Range α)) : NeverRefuses (clipFrom value snap best far rs) := by
  induction rs generalizing best far with
  | nil => exact neverRefuses_ok _
  | cons r rest ih =>
    refine (r.neverRefuses_nearest value snap).bind fun candidate => ?_
    cases far with
    | none => dsimp only; split <;> exact ih _ _
    | some distance => dsimp only; split <;> exact ih _ _

/-- A value is never refused by a single range. -/
theorem Ranges.neverRefuses_clip_single (r : Range α) (value : α) (snap : Bool) :
    NeverRefuses ((Ranges.mk [r]).clip value snap) :=
  neverRefuses_clipFrom value snap r.start none [r]

end

namespace Frontend

open Scalar (ofInt)
open Steps

variable {α : Type} [Scalar α]

/-! ## The settings -/

def setRateInPlace (rate clockRate : α) : Steps (Frontend α) Unit := do
  if !(Scalar.isFinite rate && Scalar.lt (ofInt 0) rate) then
    check (refuse (.badSampleRate (Scalar.text rate)))
  else
    let clipped ← check ((rateRange clockRate).clip rate false)
    let divisor := Scalar.max (Scalar.round (clockRate / clipped)) (ofInt 1)
    modify ({ · with rate := clockRate / divisor })

/-- Tune in place.  Both frequencies are known before the first of them is written. -/
def tuneInPlace (request : TuneRequest α) (clockRate : α) :
    Steps (Frontend α) (TuneResult α) := do
  if !Scalar.isFinite request.target then
    check (refuse (.badTargetFrequency (Scalar.text request.target)))
  else
    let targetRf ← look fun fe => .ok (fe.targetRf request)
    let clippedRf ← check (rfRange.clip targetRf false)
    let actualRf ← look (·.actualRf request)
    let targetDsp ← look fun fe => .ok (fe.targetDsp request actualRf)
    let actualDsp ← check ((dspRange clockRate).clip targetDsp false)
    modify ({ · with rf := actualRf })
    modify ({ · with dsp := actualDsp })
    return ⟨clippedRf, targetRf, actualRf, targetDsp, actualDsp⟩

/-- Give each element in turn as much of the gain as it takes, in place: what was given before a
failure stays given. -/
def fill (gain : α) : List (GainElement α) → Except Fault Unit × List (GainElement α)
  | [] => (.ok (), [])
  | g :: rest =>
    match GainElement.setTo g (Scalar.min gain g.range.stop) with
    | .error f => (.error f, g :: rest)
    | .ok g =>
      let filled := fill (gain - g.value) rest
      (filled.1, g :: filled.2)

/-- Set one element, or for the empty name the overall gain, in place. -/
def setGainInPlace (gain : α) (name : String) : Steps (Frontend α) Unit := do
  if !Scalar.isFinite gain then check (refuse (.badGain (Scalar.text gain)))
  else if name = "" then
    let total ← look fun fe => fe.overallRange.clip gain false
    on (·.gains) (fun fe gains => { fe with gains := gains }) (fill total)
  else
    let g ← look (·.element name)
    let g ← check (GainElement.setTo g gain)
    modify fun fe => { fe with gains := replaceElement g fe.gains }

def setAntennaInPlace (antenna : String) : Steps (Frontend α) Unit := do
  let dir ← look fun fe => .ok fe.dir
  if (antennas dir).contains antenna then modify ({ · with antenna := antenna })
  else check (refuse (.badAntenna dir antenna (quotedNames (antennas dir))))

def setBandwidthInPlace (bandwidth : α) : Steps (Frontend α) Unit := do
  if !Scalar.isFinite bandwidth then check (refuse (.badBandwidth (Scalar.text bandwidth)))
  else
    let clipped ← check (bandwidthRange.clip bandwidth false)
    modify ({ · with bandwidth := clipped })

/-! ## In place and at once -/

variable {F : Fault → Prop} (fe : Frontend α)

theorem sets_setRateInPlace (rate clockRate : α) :
    Sets F (setRateInPlace rate clockRate) fe (fe.setRate rate clockRate) :=
  .ite (fun _ => endsAs_refuse _) fun _ => endsAs_bind rfl fun _ _ => sets_modify _

theorem endsAs_tuneInPlace (request : TuneRequest α) (clockRate : α) :
    EndsAs F Prod.mk (tuneInPlace request clockRate) fe (fe.tune request clockRate) := by
  refine .ite (fun _ => endsAs_refuse _) fun _ => ?_
  refine endsAs_ok_bind (b := fe.targetRf request) rfl ?_
  refine endsAs_bind rfl fun clippedRf _ => endsAs_bind rfl fun actualRf _ => ?_
  refine endsAs_ok_bind (b := fe.targetDsp request actualRf) rfl ?_
  exact endsAs_bind rfl fun actualDsp _ => endsAs_of_ok rfl

omit [Scalar α] in
theorem sets_setAntennaInPlace (antenna : String) :
    Sets F (setAntennaInPlace antenna) fe (fe.setAntenna antenna) :=
  endsAs_ok_bind (b := fe.dir) rfl
    (.ite (fun _ => sets_modify _) fun _ => endsAs_refuse _)

theorem sets_setBandwidthInPlace (bandwidth : α) :
    Sets F (setBandwidthInPlace bandwidth) fe (fe.setBandwidth bandwidth) :=
  .ite (fun _ => endsAs_refuse _) fun _ => endsAs_bind rfl fun _ _ => sets_modify _

/-! ## The overall gain -/

theorem spread_eq_fill (gain : α) (gains : List (GainElement α)) :
    spread gain gains = (fun _ => (fill gain gains).2) <$> (fill gain gains).1 := by
  induction gains generalizing gain with
  | nil => rfl
  | cons g rest ih =>
    unfold spread fill
    cases GainElement.setTo g (Scalar.min gain g.range.stop) with
    | error f => rfl
    | ok g' =>
      dsimp only [bind, Except.bind]
      rw [ih]
      cases (fill (gain - g'.value) rest).1 <;> rfl

theorem neverRefuses_setTo (g : GainElement α) (gain : α) :
    NeverRefuses (GainElement.setTo g gain) :=
  (Ranges.neverRefuses_clip_single g.range gain true).bind fun _ => neverRefuses_ok _

/-- Once the elements are being filled nothing is refused any more. -/
theorem neverRefuses_fill (gain : α) (gains : List (GainElement α)) :
    NeverRefuses (fill gain gains).1 := by
  induction gains generalizing gain with
  | nil => exact neverRefuses_ok _
  | cons g rest ih =>
    unfold fill
    cases hset : GainElement.setTo g (Scalar.min gain g.range.stop) with
    | error f =>
      intro e he
      cases he
      exact neverRefuses_setTo g _ e hset
    | ok g' => exact ih _

/-- A gain that is refused is refused before anything is written. -/
theorem sets_setGainInPlace (gain : α) (name : String)
    (hF : name = "" → ∀ fault, F fault → ∃ e, fault = .error e) :
    Sets F (setGainInPlace gain name) fe (fe.setGain gain name) := by
  refine .ite (fun _ => endsAs_refuse _) fun _ => .ite (fun hname => ?_) fun _ => ?_
  · refine endsAs_bind rfl fun total _ => ?_
    have hfill : Sets F (fill total) fe.gains (spread total fe.gains) := by
      refine ⟨spread_eq_fill total fe.gains, fun fault hfault herror => ?_⟩
      obtain ⟨e, rfl⟩ := hF hname fault hfault
      exact absurd herror (neverRefuses_fill total fe.gains e)
    exact hfill.on rfl fun _ _ => rfl
  · exact endsAs_bind rfl fun g _ => endsAs_bind rfl fun g _ => sets_modify _

end Frontend

end SoftRadio
