import SoftRadio.Proofs.Device.Channels
import SoftRadio.Proofs.Flat.Boundary
import SoftRadio.Proofs.Session.Effect
import SoftRadio.Proofs.Subdev
import SoftRadio.Proofs.Text.Buffer

/-!
# Specifications that are read back

A caller of the flat interface who asks for a specification gets its markup, and may pass that
markup back.  It is accepted then, and nothing of the radio changes.

* `SubdevSpec.Fits.capital_or_zero`: what a specification that fits is written with.
* `call_device`: a call on a simulated radio that succeeds.
* `specMarkup_read_back`: which markup is read, that it is written and read again, and that a
  radio takes its own markup back, after any calls.
-/

namespace SoftRadio

/-! ## Specifications that fit -/

/-- A slot that has a number is named by one capital letter. -/
theorem Slot.exists_capital {name : String} {slot : Nat} (h : Slot.ofName? name = some slot) :
    ∃ c, name.toList = [c] ∧ 65 ≤ c.toNat ∧ c.toNat ≤ 90 := by
  unfold Slot.ofName? at h
  split at h
  next c hc =>
    split at h
    next hcapital =>
      simp only [Bool.and_eq_true, decide_eq_true_eq, Char.le_def, UInt32.le_iff_toNat_le]
        at hcapital
      exact ⟨c, hc, hcapital.1, hcapital.2⟩
    · cases h
  · cases h

namespace SubdevSpec

variable {spec : SubdevSpec} {count : Nat}

/-- A specification that fits is written with capital letters and the digit of its subdevices. -/
theorem Fits.capital_or_zero (h : spec.Fits count) {p : SubdevPair} (hp : p ∈ spec.pairs) :
    p.slot.toList ≠ [] ∧
      ∀ c ∈ p.slot.toList ++ p.subdevice.toList, 65 ≤ c.toNat ∧ c.toNat ≤ 90 ∨ c = '0' := by
  obtain ⟨slot, hslot, -⟩ := h.named p hp
  obtain ⟨letter, hletter, hcapital⟩ := Slot.exists_capital hslot
  rw [hletter]
  refine ⟨List.cons_ne_nil letter [], fun c hc => ?_⟩
  rcases List.mem_cons.1 hc with rfl | hc
  · exact .inl hcapital
  · rcases h.subdevice p hp with hnone | hzero
    · rw [hnone] at hc
      cases hc
    · rw [hzero] at hc
      exact .inr (List.mem_singleton.1 hc)

theorem Fits.legible (h : spec.Fits count) : ∀ p ∈ spec.pairs, p.Legible := by
  intro p hp
  obtain ⟨hne, hchars⟩ := h.capital_or_zero hp
  refine ⟨hne, fun c hc => ?_⟩
  rcases hchars c hc with ⟨hlow, hhigh⟩ | rfl
  · refine ⟨?_, ?_⟩
    · simp [Text.isBlank]
      omega
    · rintro rfl
      exact absurd hlow (by decide)
  · decide

theorem Fits.zero_not_mem_render (h : spec.Fits count) : '\x00' ∉ spec.render.toList := by
  intro hmem
  rcases mem_render hmem with hspace | hcolon | ⟨p, hp, hc⟩
  · cases hspace
  · cases hcolon
  · rcases (h.capital_or_zero hp).2 _ hc with ⟨hlow, -⟩ | hdigit
    · exact absurd hlow (by decide)
    · cases hdigit

end SubdevSpec

/-! ## A radio and its own specification -/

theorem Board.setSpec_spec {α : Type} (b : Board α) (dir : Direction) :
    b.setSpec dir (b.spec dir) = b := by
  cases dir <;> rfl

namespace Device

variable {α : Type} {d : Device α}

/-- The specification of a board is accepted for it, and changes nothing. -/
theorem Routed.setSubdevSpec_self (hd : d.Routed) {dir : Direction} {index : Nat} {b : Board α}
    (hb : d.board index = .ok b) : d.setSubdevSpec dir (b.spec dir) index = .ok d := by
  refine setSubdevSpec_eq_ok_iff.2 ⟨b, hb, hd.fits b (mem_of_board hb) dir, ?_⟩
  rw [Board.setSpec_spec, setBoard_self hb]

end Device

namespace Flat

variable {α : Type} [Scalar α]

/-- The function that asks for the specification of a board. -/
def specGetter (dir : Direction) : DeviceFunction α :=
  ⟨s!"radio_device_get_{dir.name}_subdev_spec", .text, fun a => .ok (.subdevSpec dir a.board)⟩

/-- The function that sets it. -/
def specSetter (dir : Direction) : DeviceFunction α :=
  ⟨s!"radio_device_set_{dir.name}_subdev_spec", .nothing, fun a => do
    let markup ← a.text.read "subdev spec"
    let spec ← SubdevSpec.parse markup
    return .setSubdevSpec dir spec a.board⟩

/-- Both are found by their names. -/
theorem ofName?_specFunctions (dir : Direction) :
    Function.ofName? (specGetter dir : DeviceFunction α).name =
        some (.device (specGetter dir : DeviceFunction α)) ∧
      Function.ofName? (specSetter dir : DeviceFunction α).name =
        some (.device (specSetter dir : DeviceFunction α)) := by
  cases dir <;> exact ⟨rfl, rfl⟩

open Session Device

/-- A call on a simulated radio that succeeds writes its answer, and leaves the radio as it has
made it. -/
theorem call_device {i : Interface α} {f : DeviceFunction α} {a : Arguments α} {o : Opened α}
    {d d' : Device α} {call : Call α} {answer : Answer α}
    (hdevice : i.station.session.deviceAt a.handle = some o) (hradio : o.radio = .simulated d)
    (hcall : f.prepare a = .ok call)
    (hperform : d.perform (HostTime.looks o.epoch i.station.time) call = .ok (answer, d')) :
    (i.call f.name (.device f) a).1 = ⟨.none, Output.ofAnswer a answer, []⟩ ∧
      (i.call f.name (.device f) a).2.station.session.deviceAt a.handle =
        some { o with radio := .simulated d' } := by
  have hrun : (f.prepare a >>= o.radio.perform (HostTime.looks o.epoch i.station.time)) =
      .ok (answer, .simulated d') := by
    rw [hcall, hradio]
    exact bind_eq_ok_iff.2 ⟨call, rfl, bind_eq_ok_iff.2 ⟨_, hperform, rfl⟩⟩
  have hanswer : (i.station.deviceCall a.handle (f.prepare a)).1 = .ok answer := by
    obtain ⟨r, hr, rfl⟩ := Option.map_eq_some_iff.1 hdevice
    unfold Station.deviceCall deviceCall
    rw [deviceRecord_eq_ok_iff.2 hr]
    dsimp only
    rw [hrun]
    rfl
  have hleft : (i.station.deviceCall a.handle (f.prepare a)).2.session.deviceAt a.handle =
      some { o with radio := .simulated d' } := by
    unfold Station.deviceCall
    dsimp only [Station.tick]
    rw [deviceAt_deviceCall, if_pos rfl, hdevice, Option.map_some, hrun]
  have hforward : Desk.forward (fun st => st.deviceCall a.handle (f.prepare a))
      (.start i.station) =
        (.ok answer, .start (i.station.deviceCall a.handle (f.prepare a)).2) :=
    Prod.ext (congrArg Desk.raise hanswer) rfl
  have hwritten : Function.run (.device f) a i =
      (.ok (), ⟨(i.station.deviceCall a.handle (f.prepare a)).2, Output.ofAnswer a answer, []⟩) :=
    (Steps.bind_of_ok hforward).trans (Desk.run_writeAll _ _)
  rw [call_of_ok hwritten]
  exact ⟨rfl, hleft⟩

section

variable {i : Interface α} {a : Arguments α} {o : Opened α} {d : Device α} {b : Board α}
  {dir : Direction}

/-- The specification of a board is written into a buffer with room for it. -/
theorem call_specGetter (hdevice : i.station.session.deviceAt a.handle = some o)
    (hradio : o.radio = .simulated d) (hb : d.board a.board = .ok b) (hlent : .text ∉ a.missing)
    (hroom : (Text.bytes (b.spec dir).render).length < a.length) :
    (i.call (specGetter dir : DeviceFunction α).name (.device (specGetter dir)) a).1 =
        ⟨.none, [(.text, .bytes (Text.fill (List.replicate a.length 0) (b.spec dir).render).2)],
          []⟩ ∧
      (i.call (specGetter dir : DeviceFunction α).name
        (.device (specGetter dir)) a).2.station.session.deviceAt a.handle = some o := by
  have hcall : (specGetter dir : DeviceFunction α).prepare a = .ok (.subdevSpec dir a.board) := by
    refine bind_eq_ok_iff.2 ⟨(), ?_, rfl⟩
    show Output.checkText a = _
    unfold Output.checkText
    rw [List.contains_eq_mem, decide_eq_false hlent, Bool.false_and]
    rfl
  have hperform : d.perform (HostTime.looks o.epoch i.station.time) (.subdevSpec dir a.board) =
      .ok (.text (b.spec dir).render, d) :=
    bind_eq_ok_iff.2 ⟨_, map_eq_ok_iff.2 ⟨b, hb, rfl⟩, rfl⟩
  have hkept : { o with radio := .simulated d } = o := by rw [← hradio]
  obtain ⟨hreply, hleft⟩ := call_device hdevice hradio hcall hperform
  rw [hkept] at hleft
  refine ⟨hreply.trans ?_, hleft⟩
  have hlength : a.length ≠ 0 := by omega
  dsimp only [Output.ofAnswer]
  rw [Output.writeText, if_neg hlength]

/-- A board takes a text that is read as its own specification, and all is as it was. -/
theorem call_specSetter (hdevice : i.station.session.deviceAt a.handle = some o)
    (hradio : o.radio = .simulated d) (hd : d.Routed) (hb : d.board a.board = .ok b)
    (htext : a.text.read "subdev spec" = .ok (b.spec dir).render) :
    (i.call (specSetter dir : DeviceFunction α).name (.device (specSetter dir)) a).1 =
        ⟨.none, [], []⟩ ∧
      (i.call (specSetter dir : DeviceFunction α).name
        (.device (specSetter dir)) a).2.station.session.deviceAt a.handle = some o := by
  have hfits := hd.fits b (mem_of_board hb) dir
  have hcall : (specSetter dir : DeviceFunction α).prepare a =
      .ok (.setSubdevSpec dir (b.spec dir) a.board) :=
    bind_eq_ok_iff.2 ⟨(), rfl, bind_eq_ok_iff.2 ⟨_, htext,
      bind_eq_ok_iff.2 ⟨_, SubdevSpec.parse_render hfits.legible, rfl⟩⟩⟩
  have hperform : d.perform (HostTime.looks o.epoch i.station.time)
      (.setSubdevSpec dir (b.spec dir) a.board) = .ok (.done, d) :=
    bind_eq_ok_iff.2 ⟨d, hd.setSubdevSpec_self hb, rfl⟩
  have hkept : { o with radio := .simulated d } = o := by rw [← hradio]
  obtain ⟨hreply, hleft⟩ := call_device hdevice hradio hcall hperform
  rw [hkept] at hleft
  exact ⟨hreply, hleft⟩

end

/-- What was written into a buffer with room for it is read from there. -/
theorem read_fill {room : Nat} {s what : String} (hroom : (Text.bytes s).length < room)
    (hzero : '\x00' ∉ s.toList) :
    TextArgument.read what (some (Text.fill (List.replicate room 0) s).2) = .ok s := by
  unfold TextArgument.read
  dsimp only
  rw [Text.untilZero_fill (by rw [List.length_replicate]; omega) hzero, List.length_replicate,
    Text.truncate_of_le (by omega), Text.ofBytes?_bytes]

/-- A markup is read just if each of its words is a slot, which is not empty, and after a colon, if
there is one, a subdevice, neither of them with a colon in it; and read are these, word by word.
What is read is written as a markup that is read as the same.  So after any calls on a radio,
accepted or refused, the bytes that a caller gets for the specification of a board may be passed
back, and leave the radio as it was. -/
theorem specMarkup_read_back {defaults g : Geometry α} {args addr : Address} {opened : Device α}
    (hsize : Geometry.ofAddress defaults args = .ok g) (hmake : Device.make addr g = .ok opened)
    (happenings : List (Happening α)) :
    (∀ markup tokens, Text.Spaced markup.toList tokens →
      ((∃ spec, SubdevSpec.parse markup = .ok spec) ↔
        ∀ token ∈ tokens, ∃ p, SubdevSpec.Spells token p)) ∧
    (∀ markup spec, SubdevSpec.parse markup = .ok spec ↔
      ∃ tokens, Text.Spaced markup.toList tokens ∧
        List.Forall₂ SubdevSpec.Spells tokens spec.pairs) ∧
    (∀ markup spec, SubdevSpec.parse markup = .ok spec →
      SubdevSpec.parse spec.render = .ok spec) ∧
    ∀ dir : Direction, ∃ getter setter : Function α,
      let get := s!"radio_device_get_{dir.name}_subdev_spec"
      let set := s!"radio_device_set_{dir.name}_subdev_spec"
      Function.ofName? get = some getter ∧ Function.ofName? set = some setter ∧
      ∀ (i : Interface α) (lent : Arguments α) (o : Opened α) (b : Board α),
        let d := happenings.foldl Device.after opened
        let bytes := (Text.fill (List.replicate lent.length 0) (b.spec dir).render).2
        i.station.session.deviceAt lent.handle = some o → o.radio = .simulated d →
        d.board lent.board = .ok b → .text ∉ lent.missing →
        (Text.bytes (b.spec dir).render).length < lent.length →
        (i.call get getter lent).1 = ⟨.none, [(.text, .bytes bytes)], []⟩ ∧
          ∀ given : Arguments α, given.handle = lent.handle → given.board = lent.board →
            given.text = some bytes →
            let asked := (i.call get getter lent).2
            (asked.call set setter given).1 = ⟨.none, [], []⟩ ∧
              (asked.call set setter given).2.station.session.deviceAt lent.handle = some o := by
  refine ⟨?_, ?_, ?_, ?_⟩
  · exact fun markup tokens hspaced => SubdevSpec.exists_parse_iff hspaced
  · exact fun markup spec => SubdevSpec.parse_eq_ok_iff_exists
  · exact fun markup spec hspec => SubdevSpec.parse_render (SubdevSpec.legible_of_parse hspec)
  · intro dir
    obtain ⟨hgetter, hsetter⟩ := ofName?_specFunctions (α := α) dir
    refine ⟨_, _, hgetter, hsetter, ?_⟩
    intro i lent o b d bytes hdevice hradio hb hlent hroom
    have hd : d.Routed :=
      Device.routed_foldl_after (Device.routed_make hsize hmake) happenings
    have hzero := (hd.fits b (Device.mem_of_board hb) dir).zero_not_mem_render
    obtain ⟨hasked, hkept⟩ := call_specGetter hdevice hradio hb hlent hroom
    refine ⟨hasked, fun given hhandle hboard htext => ?_⟩
    rw [← hhandle] at hkept ⊢
    rw [← hboard] at hb
    exact call_specSetter hkept hradio hd hb (htext ▸ read_fill hroom hzero)

/-- A radio with slot `B` alone, which was named without its subdevice. -/
def slotAlone : List (Happening ℚ) :=
  [.call (fun _ => 0) (.setSubdevSpec .rx ⟨[⟨"B", ""⟩]⟩ 0)]

/-- Words with wide gaps are read, and so is the markup of a radio, by which it stays as it is. -/
theorem specMarkup_of_slotAlone : ∃ (g : Geometry ℚ) (opened : Device ℚ),
    Geometry.ofAddress Geometry.standard Address.empty = .ok g ∧
      Device.make Address.empty g = .ok opened ∧
      (∃ spec, SubdevSpec.parse "  A:0\u2003B " = .ok spec) ∧
      ∃ getter setter : Function ℚ,
        let o : Opened ℚ := ⟨.simulated (slotAlone.foldl Device.after opened), 0⟩
        let station : Station ℚ := .initial .absent []
        let i : Interface ℚ := .initial { station with session := (station.session.addDevice o).2 }
        let asked := i.call "radio_device_get_rx_subdev_spec" getter
          { Arguments.zero with handle := 1, length := 8 }
        asked.1 = ⟨.none, [(.text, .bytes [66, 58, 0, 0, 0, 0, 0, 0])], []⟩ ∧
        (asked.2.call "radio_device_set_rx_subdev_spec" setter
          { Arguments.zero with handle := 1, text := some [66, 58, 0, 0, 0, 0, 0, 0] }).1 =
            ⟨.none, [], []⟩ := by
  obtain ⟨g, opened, hsize, hmake, htest⟩ := Device.exists_opened Geometry.standard Address.empty
    Address.empty
    (fun opened : Device ℚ =>
      match (slotAlone.foldl Device.after opened).board 0 with
      | .ok b => (b.spec .rx).render = "B:"
      | .error _ => false)
    (by decide +kernel)
  obtain ⟨hread, -, -, hback⟩ := specMarkup_read_back hsize hmake slotAlone
  refine ⟨g, opened, hsize, hmake, ?_, ?_⟩
  · have hspaced : Text.Spaced "  A:0\u2003B ".toList ["A:0".toList, "B".toList] :=
      Text.words_eq_iff.1 (by decide +kernel)
    refine (hread _ _ hspaced).2 fun token htoken => ?_
    rcases List.mem_cons.1 htoken with rfl | htoken
    · exact ⟨⟨"A", "0"⟩, SubdevSpec.parseToken?_eq_some_iff.1 (by decide +kernel)⟩
    · cases List.mem_singleton.1 htoken
      exact ⟨⟨"B", ""⟩, SubdevSpec.parseToken?_eq_some_iff.1 (by decide +kernel)⟩
  · obtain ⟨getter, setter, -, -, hback⟩ := hback .rx
    refine ⟨getter, setter, ?_⟩
    intro o station i asked
    split at htest
    next b hb =>
      have hmarkup : (b.spec .rx).render = "B:" := of_decide_eq_true htest
      have hroom : (Text.bytes (b.spec .rx).render).length < 8 := by
        rw [hmarkup]
        decide +kernel
      have hbytes : (Text.fill (List.replicate 8 0) (b.spec .rx).render).2 =
          [66, 58, 0, 0, 0, 0, 0, 0] := by
        rw [hmarkup]
        decide +kernel
      obtain ⟨hasked, hset⟩ := hback i { Arguments.zero with handle := 1, length := 8 } o b
        rfl rfl hb List.not_mem_nil hroom
      obtain ⟨hreply, -⟩ := hset
        { Arguments.zero with handle := 1, text := some [66, 58, 0, 0, 0, 0, 0, 0] } rfl rfl
        (congrArg some hbytes.symm)
      exact ⟨hbytes ▸ hasked, hreply⟩
    · cases htest

end Flat

end SoftRadio
