import SoftRadio.Device.Simulated
import SoftRadio.Proofs.Frontend

/-!
# What a call can change

A radio has boards, front ends, a property tree and mailboxes, and a call that succeeds changes at
most one of these, in one of a few ways.

* `SubdevSpec.Fits`: every pair of a specification names a slot there is, and no two the same one.
* `checkPairs_eq_ok_iff`: what the check of a specification lets through;
  `setSubdevSpec_eq_ok_iff`: so a specification is accepted just if it fits.
* `Call.setsRate`, `Call.tunes`: the calls that set the rate or the frequency of a channel.
* `Change`: the ways in which a call changes a radio.
* `perform_change`: every call that succeeds is one of them.
-/

namespace SoftRadio

/-- A specification for a board with so many slots: each pair names a slot and the one subdevice
that there is, each slot is named once, and at least one is. -/
structure SubdevSpec.Fits (spec : SubdevSpec) (count : Nat) : Prop where
  named : ∀ p ∈ spec.pairs, ∃ slot, Slot.ofName? p.slot = some slot ∧ slot < count
  subdevice : ∀ p ∈ spec.pairs, p.subdevice = "" ∨ p.subdevice = "0"
  once : (spec.pairs.map fun p => Slot.ofName? p.slot).Nodup
  nonempty : spec.pairs ≠ []

/-- The channel whose rate a call sets. -/
def Call.setsRate {α : Type} : Call α → Option (Direction × Nat)
  | .setRate dir _ chan => some (dir, chan)
  | _ => none

/-- The channel that a call tunes. -/
def Call.tunes {α : Type} : Call α → Option (Direction × Nat)
  | .tune dir _ chan => some (dir, chan)
  | _ => none

/-- A call that neither sets a rate nor tunes. -/
structure Call.Quiet {α : Type} (call : Call α) : Prop where
  rate : call.setsRate = none
  tune : call.tunes = none

namespace Device

variable {α : Type} {d d' : Device α}

theorem slotIndex_eq_ok_iff {dir : Direction} {name : String} {slot : Nat} :
    d.slotIndex dir name = .ok slot ↔
      Slot.ofName? name = some slot ∧ slot < d.geometry.channels dir := by
  unfold slotIndex
  cases Slot.ofName? name with
  | none => simp [refuse]
  | some n =>
    by_cases h : n < d.geometry.channels dir
    · simp only [h, if_true, Except.ok.injEq, Option.some.injEq]
      constructor
      · rintro rfl
        exact ⟨rfl, h⟩
      · exact fun hn => hn.1
    · simp only [h, if_false, refuse, reduceCtorEq, Option.some.injEq, false_iff, not_and]
      rintro rfl
      exact h

/-- Pairs pass the check if they name slots that are there, none of them used before or twice, and
the one subdevice of these. -/
theorem checkPairs_eq_ok_iff {dir : Direction} {used : List Nat} {pairs : List SubdevPair} :
    d.checkPairs dir used pairs = .ok () ↔
      (∀ p ∈ pairs, (∃ slot, Slot.ofName? p.slot = some slot ∧ slot < d.geometry.channels dir ∧
        slot ∉ used) ∧ (p.subdevice = "" ∨ p.subdevice = "0")) ∧
        (pairs.map fun p => Slot.ofName? p.slot).Nodup := by
  induction pairs generalizing used with
  | nil => exact ⟨fun _ => ⟨nofun, List.nodup_nil⟩, fun _ => rfl⟩
  | cons p rest ih =>
    rw [List.map_cons, List.nodup_cons, List.forall_mem_cons]
    constructor
    · intro h
      obtain ⟨slot, hslot, h⟩ := bind_eq_ok_iff.1 h
      obtain ⟨hname, hlt⟩ := slotIndex_eq_ok_iff.1 hslot
      split at h
      · cases h
      next hsubdevice =>
        split at h
        · cases h
        next hfresh =>
          have hunused : slot ∉ used := by simpa using hfresh
          obtain ⟨hrest, honce⟩ := ih.1 h
          have hone : p.subdevice = "" ∨ p.subdevice = "0" := by
            simpa [or_iff_not_imp_left] using hsubdevice
          refine ⟨⟨⟨⟨slot, hname, hlt, hunused⟩, hone⟩, fun q hq => ?_⟩, fun hmem => ?_, honce⟩
          · obtain ⟨⟨other, hother, hbound, hnot⟩, hq⟩ := hrest q hq
            exact ⟨⟨other, hother, hbound, fun hmem => hnot (List.mem_cons_of_mem _ hmem)⟩, hq⟩
          · rw [hname] at hmem
            obtain ⟨q, hq, heq⟩ := List.mem_map.1 hmem
            obtain ⟨⟨other, hother, -, hnot⟩, -⟩ := hrest q hq
            rw [hother] at heq
            cases heq
            exact hnot List.mem_cons_self
    · rintro ⟨⟨⟨⟨slot, hname, hlt, hunused⟩, hsubdevice⟩, hrest⟩, honce, hnodup⟩
      refine bind_eq_ok_iff.2 ⟨slot, slotIndex_eq_ok_iff.2 ⟨hname, hlt⟩, ?_⟩
      rw [if_neg (by simpa [or_iff_not_imp_left] using hsubdevice), if_neg (by simpa using hunused)]
      refine ih.2 ⟨fun q hq => ?_, hnodup⟩
      obtain ⟨⟨other, hother, hbound, hnot⟩, hq'⟩ := hrest q hq
      refine ⟨⟨other, hother, hbound, fun hmem => ?_⟩, hq'⟩
      rcases List.mem_cons.1 hmem with rfl | hmem
      · exact honce (List.mem_map.2 ⟨q, hq, hother.trans hname.symm⟩)
      · exact hnot hmem

/-- A specification is accepted for a board that is there if it fits, and only then. -/
theorem setSubdevSpec_eq_ok_iff {dir : Direction} {spec : SubdevSpec} {index : Nat} :
    d.setSubdevSpec dir spec index = .ok d' ↔
      ∃ b, d.board index = .ok b ∧ spec.Fits (d.geometry.channels dir) ∧
        d' = d.setBoard index (b.setSpec dir spec) := by
  constructor
  · intro h
    obtain ⟨b, hb, h⟩ := bind_eq_ok_iff.1 h
    split at h
    · cases h
    next hpairs =>
      obtain ⟨⟨⟩, hcheck, h⟩ := bind_eq_ok_iff.1 h
      obtain ⟨hnamed, honce⟩ := checkPairs_eq_ok_iff.1 hcheck
      refine ⟨b, hb, ⟨fun p hp => ?_, fun p hp => (hnamed p hp).2, honce, ?_⟩,
        (pure_eq_ok_iff.1 h).symm⟩
      · obtain ⟨⟨slot, hslot, hlt, -⟩, -⟩ := hnamed p hp
        exact ⟨slot, hslot, hlt⟩
      · simpa [SubdevSpec.isEmpty] using hpairs
  · rintro ⟨b, hb, hfits, rfl⟩
    refine bind_eq_ok_iff.2 ⟨b, hb, ?_⟩
    rw [if_neg (by simpa [SubdevSpec.isEmpty] using hfits.nonempty)]
    refine bind_eq_ok_iff.2 ⟨(), checkPairs_eq_ok_iff.2 ⟨fun p hp => ?_, hfits.once⟩, rfl⟩
    obtain ⟨slot, hslot, hlt⟩ := hfits.named p hp
    exact ⟨⟨slot, hslot, hlt, List.not_mem_nil⟩, hfits.subdevice p hp⟩

theorem eq_of_reply {answer : Except Fault (Answer α)} {a : Answer α}
    (h : d.reply answer = .ok (a, d')) : d' = d := by
  obtain ⟨b, -, hb⟩ := bind_eq_ok_iff.1 h
  cases pure_eq_ok_iff.1 hb
  rfl

theorem eq_ok_of_settle {changed : Except Fault (Device α)} {a : Answer α}
    (h : settle changed = .ok (a, d')) : changed = .ok d' := by
  obtain ⟨d'', hd, hb⟩ := bind_eq_ok_iff.1 h
  cases pure_eq_ok_iff.1 hb
  exact hd

variable [Scalar α]

/-- How a call that succeeds changes a radio. -/
inductive Change (d : Device α) : Call α → Device α → Prop
  | nothing {call : Call α} (hcall : call.Quiet) : Change d call d
  | board {call : Call α} {index : Nat} {b b' : Board α} (hb : d.board index = .ok b)
      (hspec : ∀ dir, b'.spec dir = b.spec dir) (hclock : b'.clockRate = b.clockRate)
      (hgpio : b'.gpio = b.gpio) (hcall : call.Quiet) : Change d call (d.setBoard index b')
  | pins {bank attr : String} {value mask : UInt32} {index : Nat} {b : Board α} {a : GpioAttr}
      {gpio : Gpio} (hb : d.board index = .ok b) (ha : Gpio.attr bank attr = .ok a)
      (hwrite : b.gpio.write a value mask = .ok gpio) :
      Change d (.setGpio bank attr value mask index) (d.setBoard index { b with gpio := gpio })
  | clockRate {rate : α} {index : Nat} {b : Board α} (hb : d.board index = .ok b)
      (hpos : Scalar.lt (Scalar.ofInt 0) rate = true) :
      Change d (.setClockRate rate index) (d.setBoard index { b with clockRate := rate })
  | clocks {time : TimeSpec α} {looks : Nat → α} :
      Change d (.setTimeUnknownPulse time) (d.setTimeUnknownPulse time looks)
  | spec {dir : Direction} {spec : SubdevSpec} {index : Nat} {b : Board α}
      (hb : d.board index = .ok b) (hfits : spec.Fits (d.geometry.channels dir)) :
      Change d (.setSubdevSpec dir spec index) (d.setBoard index (b.setSpec dir spec))
  | rate {dir : Direction} {rate : α} {chan : Nat} {place : Location} {fe fe' : Frontend α}
      {clock : α} (hchannel : d.channel dir chan = .ok (place, fe, clock))
      (hset : fe.setRate rate clock = .ok fe') :
      Change d (.setRate dir rate chan) (d.setFrontend dir place.frontend fe')
  | tuned {dir : Direction} {request : TuneRequest α} {result : TuneResult α} {chan : Nat}
      {place : Location} {fe fe' : Frontend α} {clock : α}
      (hchannel : d.channel dir chan = .ok (place, fe, clock))
      (htune : fe.tune request clock = .ok (result, fe')) :
      Change d (.tune dir request chan) (d.setFrontend dir place.frontend fe')
  | frontend {call : Call α} {dir : Direction} {chan : Nat} {place : Location}
      {fe fe' : Frontend α} {clock : α} (hchannel : d.channel dir chan = .ok (place, fe, clock))
      (hsame : fe'.tuning = fe.tuning) (hcall : call.Quiet) :
      Change d call (d.setFrontend dir place.frontend fe')
  | office {command : StreamCommand α} {chan : Nat} {office : PostOffice α} :
      Change d (.issue command chan) { d with office := office }
  | created {path : String} {v : Property} {tree : PropertyTree}
      (h : d.tree.create path v = .ok tree) :
      Change d (.createProperty path v) { d with tree := tree }
  | stored {path : String} {v : Property} {tree : PropertyTree}
      (h : d.tree.set path v = .ok tree) :
      Change d (.setProperty path v) { d with tree := tree }

section

variable {call : Call α} {index : Nat} {dir : Direction} {chan : Nat}

theorem change_reply {answer : Except Fault (Answer α)} {a : Answer α} (hcall : call.Quiet)
    (h : d.reply answer = .ok (a, d')) : Change d call d' := by
  rw [eq_of_reply h]
  exact .nothing hcall

theorem change_changeBoard {f : Board α → Board α} (hcall : call.Quiet)
    (hspec : ∀ b dir, (f b).spec dir = b.spec dir) (hclock : ∀ b, (f b).clockRate = b.clockRate)
    (hgpio : ∀ b, (f b).gpio = b.gpio) (h : d.changeBoard index f = .ok d') : Change d call d' := by
  obtain ⟨b, hb, h⟩ := bind_eq_ok_iff.1 h
  cases pure_eq_ok_iff.1 h
  exact .board hb (hspec b) (hclock b) (hgpio b) hcall

theorem change_change {f : Frontend α → α → Except Fault (Frontend α)} (hcall : call.Quiet)
    (hf : ∀ fe fe' clock, f fe clock = .ok fe' → fe'.tuning = fe.tuning)
    (h : d.change dir chan f = .ok d') : Change d call d' := by
  obtain ⟨⟨place, fe, clock⟩, hchannel, h⟩ := bind_eq_ok_iff.1 h
  obtain ⟨fe', hset, h⟩ := bind_eq_ok_iff.1 h
  cases pure_eq_ok_iff.1 h
  exact .frontend hchannel (hf fe fe' clock hset) hcall

theorem change_setRate {rate : α}
    (h : d.change dir chan (fun fe clock => fe.setRate rate clock) = .ok d') :
    Change d (.setRate dir rate chan) d' := by
  obtain ⟨⟨place, fe, clock⟩, hchannel, h⟩ := bind_eq_ok_iff.1 h
  obtain ⟨fe', hset, h⟩ := bind_eq_ok_iff.1 h
  cases pure_eq_ok_iff.1 h
  exact .rate hchannel hset

theorem change_setGpio {bank attr : String} {value mask : UInt32}
    (h : d.setGpio bank attr value mask index = .ok d') :
    Change d (.setGpio bank attr value mask index) d' := by
  obtain ⟨b, hb, h⟩ := bind_eq_ok_iff.1 h
  obtain ⟨a, ha, h⟩ := bind_eq_ok_iff.1 h
  obtain ⟨gpio, hwrite, h⟩ := bind_eq_ok_iff.1 h
  cases pure_eq_ok_iff.1 h
  exact .pins hb ha hwrite

theorem change_setSubdevSpec {spec : SubdevSpec}
    (h : d.setSubdevSpec dir spec index = .ok d') :
    Change d (.setSubdevSpec dir spec index) d' := by
  obtain ⟨b, hb, hfits, rfl⟩ := setSubdevSpec_eq_ok_iff.1 h
  exact .spec hb hfits

theorem change_setClockRate {rate : α} (h : d.setClockRate rate index = .ok d') :
    Change d (.setClockRate rate index) d' := by
  unfold setClockRate at h
  split at h
  · cases h
  next hvalid =>
    obtain ⟨b, hb, h⟩ := bind_eq_ok_iff.1 h
    cases pure_eq_ok_iff.1 h
    rw [Bool.not_eq_true', Bool.not_eq_false, Bool.and_eq_true] at hvalid
    exact .clockRate hb hvalid.2

theorem change_issue {command : StreamCommand α} {elapsed : α}
    (h : d.issue command chan elapsed = .ok d') : Change d (.issue command chan) d' := by
  obtain ⟨place, -, h⟩ := bind_eq_ok_iff.1 h
  obtain ⟨b, -, h⟩ := bind_eq_ok_iff.1 h
  obtain ⟨now, -, h⟩ := bind_eq_ok_iff.1 h
  cases pure_eq_ok_iff.1 h
  exact .office

end

/-- Every call that succeeds changes the radio in one of these ways. -/
theorem perform_change {looks : Nat → α} {call : Call α} {answer : Answer α}
    (h : d.perform looks call = .ok (answer, d')) : Change d call d' := by
  cases call with
  | issue command chan => exact change_issue (eq_ok_of_settle h)
  | setClockRate rate i => exact change_setClockRate (eq_ok_of_settle h)
  | setTimeUnknownPulse t =>
    cases eq_ok_of_settle h
    exact .clocks
  | setTimeNow | setTimeNextPulse | setCommandTime | clearCommandTime | setClockSourceOut
  | setRegister =>
    exact change_changeBoard ⟨rfl, rfl⟩ (fun b dir => by cases dir <;> rfl) (by intro b; rfl)
      (by intro b; rfl) (eq_ok_of_settle h)
  | setTimeSource | setClockSource =>
    obtain ⟨-, -, h⟩ := bind_eq_ok_iff.1 (eq_ok_of_settle h)
    exact change_changeBoard ⟨rfl, rfl⟩ (fun b dir => by cases dir <;> rfl) (by intro b; rfl)
      (by intro b; rfl) h
  | setSubdevSpec => exact change_setSubdevSpec (eq_ok_of_settle h)
  | setRate => exact change_setRate (eq_ok_of_settle h)
  | tune dir request chan =>
    obtain ⟨⟨place, fe, clock⟩, hchannel, h⟩ := bind_eq_ok_iff.1 h
    obtain ⟨⟨result, fe'⟩, htune, h⟩ := bind_eq_ok_iff.1 h
    cases pure_eq_ok_iff.1 h
    exact .tuned hchannel htune
  | setGain =>
    exact change_change ⟨rfl, rfl⟩ (fun _ _ _ => Frontend.tuning_of_setGain) (eq_ok_of_settle h)
  | setNormalizedGain =>
    obtain ⟨gain, -, h⟩ := bind_eq_ok_iff.1 (eq_ok_of_settle h)
    exact change_change ⟨rfl, rfl⟩ (fun _ _ _ => Frontend.tuning_of_setGain) h
  | setAntenna =>
    exact change_change ⟨rfl, rfl⟩ (fun _ _ _ => Frontend.tuning_of_setAntenna)
      (eq_ok_of_settle h)
  | setBandwidth =>
    exact change_change ⟨rfl, rfl⟩ (fun _ _ _ => Frontend.tuning_of_setBandwidth)
      (eq_ok_of_settle h)
  | setDcOffset | setIqBalance | setAgc =>
    refine change_change ⟨rfl, rfl⟩ (fun fe fe' clock hset => ?_) (eq_ok_of_settle h)
    cases hset
    rfl
  | setGpio => exact change_setGpio (eq_ok_of_settle h)
  | createProperty =>
    obtain ⟨tree, htree, rfl⟩ := map_eq_ok_iff.1 (eq_ok_of_settle h)
    exact .created htree
  | setProperty =>
    obtain ⟨tree, htree, rfl⟩ := map_eq_ok_iff.1 (eq_ok_of_settle h)
    exact .stored htree
  | _ => exact change_reply ⟨rfl, rfl⟩ h

end Device

end SoftRadio
