import SoftRadio.Flat.DeviceFunction
import SoftRadio.Proofs.Outcome
import SoftRadio.Radio

/-!
# Calls are answered in the shape that their function announces

A function of the flat interface checks the places of its shape before the call and writes the
answer after it.  Here it is shown that the two belong together: a call has a shape
(`Call.output`), every radio answers it in that shape, and an answer fills just the places of its
own shape.

* `Radio.shaped_perform`: what a radio answers has the shape of the call.
* `DeviceFunction.announced_of_mem_table`: what a function asks has the shape that it announces.
* `Output.places_ofAnswer`: the places that an answer is written to.
-/

namespace SoftRadio

open Flat

variable {α : Type} {β γ : Type}

/-- Whatever a step comes to, if it succeeds, has a property. -/
def Yields (P : β → Prop) (x : Except Fault β) : Prop := ∀ v, x = .ok v → P v

namespace Yields

variable {P : β → Prop} {Q : γ → Prop}

theorem ok {v : β} (h : P v) : Yields P (.ok v) := by
  rintro _ ⟨⟩
  exact h

theorem error {f : Fault} : Yields P (.error f) := nofun

theorem bind {x : Except Fault γ} {f : γ → Except Fault β} (hx : Yields Q x)
    (hf : ∀ v, Q v → Yields P (f v)) : Yields P (x >>= f) := by
  intro v h
  obtain ⟨u, hu, hv⟩ := bind_eq_ok_iff.1 h
  exact hf u (hx u hu) v hv

/-- Where the steps before do not matter. -/
theorem after {x : Except Fault γ} {f : γ → Except Fault β} (hf : ∀ v, Yields P (f v)) :
    Yields P (x >>= f) :=
  bind (Q := fun _ => True) (fun _ _ => trivial) fun v _ => hf v

theorem map {x : Except Fault γ} {f : γ → β} (h : ∀ v, P (f v)) : Yields P (f <$> x) := by
  intro v hv
  obtain ⟨u, -, rfl⟩ := map_eq_ok_iff.1 hv
  exact h u

end Yields

/-! ## Shapes -/

/-- The shape of a property of a type that the flat interface reads. -/
def PropertyType.output : PropertyType → Output
  | .address => .text
  | .dboard => .value
  | .text | .word | .integer | .real | .flag => .nothing

/-- The shape of what a call asks for. -/
def Call.output : Call α → Output
  | .summary | .boardName _ | .timeSource _ | .clockSource _ | .subdevSpec .. | .subdevName ..
  | .antenna .. => .text
  | .timeSources _ | .clockSources _ | .boardSensorNames _ | .gainNames .. | .antennas ..
  | .sensorNames .. | .gpioBanks _ | .listProperties _ => .texts
  | .rates .. | .freqRange .. | .rfRange .. | .gainRange .. | .bandwidthRange .. => .ranges
  | .timeNow _ | .timeLastPulse _ => .time
  | .info .. | .boardCount | .clockRate _ | .timeSynchronized | .boardSensor .. | .channelCount _
  | .rate .. | .tune .. | .freq .. | .gain .. | .normalizedGain .. | .bandwidth .. | .sensor ..
  | .gpio .. | .hasProperty _ => .value
  | .property _ type => type.output
  | .setClockRate .. | .setTimeNow .. | .setTimeNextPulse .. | .setTimeUnknownPulse _
  | .setCommandTime .. | .clearCommandTime _ | .issue .. | .setTimeSource .. | .setClockSource ..
  | .setClockSourceOut .. | .setRegister .. | .setSubdevSpec .. | .setRate .. | .setGain ..
  | .setNormalizedGain .. | .setAntenna .. | .setBandwidth .. | .setDcOffset .. | .setIqBalance ..
  | .setAgc .. | .setGpio .. | .createProperty .. | .setProperty .. => .nothing

/-- The shape of an answer. -/
def Answer.output : Answer α → Output
  | .done => .nothing
  | .text _ => .text
  | .texts _ => .texts
  | .ranges _ => .ranges
  | .time _ => .time
  | .flag _ | .count _ | .word _ | .real _ | .sensor _ | .info _ | .tuned _ => .value
  | .property v => v.type.output

namespace Flat

/-- A text is left out where there is no room for it. -/
def Arguments.leavesOut (a : Arguments α) (p : Place) : Bool := p = .text && a.length = 0

namespace Output

theorem places_writeText (a : Arguments α) (s : String) :
    (writeText a s).map Prod.fst = [Place.text].filter fun p => !a.leavesOut p := by
  unfold writeText Arguments.leavesOut
  split <;> simp [*]

variable [Scalar α]

/-- An answer is written to the places of its shape. -/
theorem places_ofAnswer (a : Arguments α) (answer : Answer α) :
    (ofAnswer a answer).map Prod.fst = answer.output.places.filter fun p => !a.leavesOut p := by
  have hkept : ∀ p, p ≠ Place.text → a.leavesOut p = false := by
    intro p hp
    simp [Arguments.leavesOut, hp]
  cases answer with
  | text s => exact places_writeText a s
  | texts items =>
    change (writeText a _ ++ _).map Prod.fst = ([Place.text] ++ [Place.count]).filter _
    rw [List.map_append, List.filter_append, places_writeText]
    simp [hkept]
  | property v =>
    cases v with
    | address m => exact places_writeText a m.render
    | dboard e =>
      simp [ofAnswer, Answer.output, Property.type, PropertyType.output, Output.places, hkept]
    | text | word | integer | real | flag => rfl
  | done => rfl
  | flag | count | word | real | ranges | time | sensor | info | tuned =>
    simp [ofAnswer, writeRanges, Answer.output, Output.places, hkept]

end Output

end Flat

namespace Flat.DeviceFunction

/-- What a function asks has the shape that it announces. -/
def Announced (f : DeviceFunction α) : Prop :=
  ∀ a, Yields (fun call => call.output = f.output) (f.call a)

theorem announced_of_mem_ofChannels (dir : Direction) :
    ∀ f ∈ ofChannels (α := α) dir, f.Announced := by
  unfold ofChannels
  dsimp only
  repeat' refine List.forall_mem_cons.2 ⟨fun a => ?_, ?_⟩
  -- a call is made of arguments that are read one after the other
  all_goals first
    | exact List.forall_mem_nil _
    | repeat' first | exact .ok rfl | refine .after fun _ => ?_

variable [Scalar α]

theorem announced_of_mem_ofBoards : ∀ f ∈ ofBoards (α := α), f.Announced := by
  unfold ofBoards
  repeat' refine List.forall_mem_cons.2 ⟨fun a => ?_, ?_⟩
  all_goals first
    | exact List.forall_mem_nil _
    | repeat' first | exact .ok rfl | refine .after fun _ => ?_

theorem announced_of_mem_table : ∀ f ∈ table (α := α), f.Announced := by
  intro f hf
  rcases List.mem_append.1 hf with hf | hf
  · rcases List.mem_append.1 hf with hf | hf
    · exact announced_of_mem_ofBoards f hf
    · exact announced_of_mem_ofChannels .rx f hf
  · exact announced_of_mem_ofChannels .tx f hf

end Flat.DeviceFunction

/-- An answer of a shape, together with what the radio is afterwards. -/
def Shaped (o : Output) (x : Except Fault (Answer α × β)) : Prop :=
  Yields (fun r => r.1.output = o) x

/-- What is found in a tree has the type that was asked for. -/
theorem yields_get (t : PropertyTree) (path : String) (type : PropertyType) :
    Yields (fun v => v.type = type) (t.get path type) := by
  unfold PropertyTree.get
  dsimp only
  split
  · exact .error
  · split
    · exact .ok ‹_›
    · exact .error

namespace Device

theorem shaped_reply {o : Output} (d : Device α) {answer : Except Fault (Answer α)}
    (h : Yields (fun a => a.output = o) answer) : Shaped o (d.reply answer) :=
  .bind h fun _ ha => .ok ha

theorem shaped_settle (changed : Except Fault (Device α)) : Shaped .nothing (settle changed) :=
  .after fun _ => .ok rfl

theorem yields_ask (d : Device α) (dir : Direction) (chan : Nat) {P : β → Prop}
    {f : Frontend α → α → Except Fault β} (h : ∀ fe clock, Yields P (f fe clock)) :
    Yields P (d.ask dir chan f) :=
  .after fun _ => h _ _

variable [Scalar α]

/-- A simulated radio answers in the shape of the call. -/
theorem shaped_perform (d : Device α) (looks : Nat → α) (call : Call α) :
    Shaped call.output (d.perform looks call) := by
  cases call with
  -- calls that change something confirm it
  | setClockRate | setTimeNow | setTimeNextPulse | setTimeUnknownPulse | setCommandTime
  | clearCommandTime | issue | setTimeSource | setClockSource | setClockSourceOut | setRegister
  | setSubdevSpec | setRate | setGain | setNormalizedGain | setAntenna | setBandwidth
  | setDcOffset | setIqBalance | setAgc | setGpio | createProperty | setProperty =>
    exact shaped_settle _
  -- calls that always have an answer
  | boardCount | timeSynchronized | channelCount | hasProperty | listProperties =>
    exact d.shaped_reply (.ok rfl)
  -- calls that make what they find into an answer
  | summary | info | boardName | clockRate | timeSource | timeSources | clockSource | clockSources
  | boardSensorNames | subdevSpec | subdevName | normalizedGain | antennas | bandwidthRange
  | gpioBanks | gpio =>
    exact d.shaped_reply (.map fun _ => rfl)
  | timeNow | timeLastPulse | boardSensor =>
    exact d.shaped_reply (.after fun _ => .map fun _ => rfl)
  -- calls that ask a front end
  | rate | rates | freq | freqRange | rfRange | gainNames | antenna | bandwidth | sensorNames =>
    exact d.shaped_reply (d.yields_ask _ _ fun _ _ => .ok rfl)
  | gain | gainRange | sensor =>
    exact d.shaped_reply (d.yields_ask _ _ fun _ _ => .map fun _ => rfl)
  | tune => exact .after fun _ => .after fun _ => .ok rfl
  | property path type =>
    refine d.shaped_reply fun answer h => ?_
    obtain ⟨v, hv, rfl⟩ := map_eq_ok_iff.1 h
    exact congrArg PropertyType.output (yields_get d.tree path type v hv)

end Device

variable [Scalar α]

/-- So does a stub, where it answers at all. -/
theorem Stub.shaped_perform (s : Stub α) (looks : Nat → α) (call : Call α) :
    Shaped call.output (s.perform looks call) := by
  unfold Stub.perform
  split
  case h_1 | h_2 | h_3 => exact .ok rfl
  case h_4 | h_5 => exact .after fun _ => .ok rfl
  case h_6 | h_7 | h_8 | h_9 | h_10 =>
    exact .bind (s.device.shaped_perform looks _) fun _ h => .ok h
  case h_11 => exact .error

/-- Every radio answers in the shape of the call. -/
theorem Radio.shaped_perform (r : Radio α) (looks : Nat → α) (call : Call α) :
    Shaped call.output (r.perform looks call) := by
  cases r with
  | simulated d => exact .bind (d.shaped_perform looks call) fun _ h => .ok h
  | stub s => exact .bind (s.shaped_perform looks call) fun _ h => .ok h

end SoftRadio
