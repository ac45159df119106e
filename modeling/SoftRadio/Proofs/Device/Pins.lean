import SoftRadio.Proofs.Device.Channels

/-!
# What is left on the pins

A write to a register of the pins changes the bits under its mask.  So after any calls on a radio
each bit of a register is that of the last write that was accepted for the register and had the
bit under its mask, and zero if there was none.

* `Gpio.pin`: one bit of a register; `Gpio.pin_register_write`: what a write leaves of it.
* `setGpio_eq_ok_iff`: which writes are accepted.
* `accepted`: the calls of a run that were accepted; `lastPin`: the last write to one bit.
* `pin_after`, `pin_foldl_after`: one step, and from it a run.
* `pins_after_happenings`: every register, bit by bit, after any calls.
-/

namespace SoftRadio

/-! ## Registers -/

theorem GpioAttr.ofName?_eq_some_iff {name : String} {a : GpioAttr} :
    ofName? name = some a ↔ name = a.name := by
  constructor
  · intro h
    unfold ofName? at h
    have hname := List.find?_some h
    exact (beq_iff_eq.1 hname).symm
  · rintro rfl
    cases a <;> rfl

/-- No two registers have one name. -/
theorem GpioAttr.name_inj {a b : GpioAttr} : a.name = b.name ↔ a = b := by
  refine ⟨fun h => ?_, fun h => h ▸ rfl⟩
  have hb := ofName?_eq_some_iff.2 h
  rw [ofName?_eq_some_iff.2 rfl] at hb
  exact Option.some.inj hb

namespace Gpio

theorem attr_eq_ok_iff {bankName attrName : String} {a : GpioAttr} :
    attr bankName attrName = .ok a ↔ bankName = bank ∧ attrName = a.name := by
  rw [← GpioAttr.ofName?_eq_some_iff]
  unfold attr
  by_cases hbank : bankName = bank
  · rw [if_neg (not_not.2 hbank)]
    cases GpioAttr.ofName? attrName <;> simp [hbank, refuse]
  · simp [hbank, refuse]

/-- All registers but that for reading back can be written. -/
theorem exists_write_iff {g : Gpio} {a : GpioAttr} {value mask : UInt32} :
    (∃ g', g.write a value mask = .ok g') ↔ a ≠ .readback := by
  unfold write
  by_cases ha : a = .readback <;> simp [ha, refuse]

/-- The bit of one pin in a register. -/
def pin (register : UInt32) (i : Nat) : Bool := register.toBitVec.getLsbD i

theorem pin_and (x y : UInt32) (i : Nat) : pin (x &&& y) i = (pin x i && pin y i) := by
  unfold pin
  rw [UInt32.toBitVec_and, BitVec.getLsbD_and]

theorem pin_zero (i : Nat) : pin 0 i = false := BitVec.getLsbD_zero

/-- The bits under the mask are new, the others are old. -/
theorem pin_masked (old value mask : UInt32) (i : Nat) :
    pin ((old &&& ~~~mask) ||| (value &&& mask)) i =
      if pin mask i then pin value i else pin old i := by
  unfold pin
  simp only [UInt32.toBitVec_or, UInt32.toBitVec_and, UInt32.toBitVec_not, BitVec.getLsbD_or,
    BitVec.getLsbD_and, BitVec.getLsbD_not]
  cases mask.toBitVec.getLsbD i with
  | true => simp
  | false =>
    by_cases hi : i < 32
    · simp [hi]
    · simp [BitVec.getLsbD_of_ge _ i (Nat.le_of_not_lt hi)]

theorem pin_register_write {g g' : Gpio} {a : GpioAttr} {value mask : UInt32}
    (h : g.write a value mask = .ok g') (b : GpioAttr) (i : Nat) :
    pin (g'.register b) i =
      if b = a ∧ pin mask i then pin value i else pin (g.register b) i := by
  rw [register_write h]
  by_cases hb : b = a
  · subst hb
    simp only [if_true, pin_masked, true_and]
  · simp only [hb, if_false, false_and]

theorem pin_read (g : Gpio) (a : GpioAttr) (i : Nat) : pin (g.read a) i =
    if a = .readback then pin (g.register .out) i && pin (g.register .ddr) i
    else pin (g.register a) i := by
  unfold read
  by_cases ha : a = .readback
  · rw [if_pos ha, if_pos ha, pin_and]
  · rw [if_neg ha, if_neg ha]

end Gpio

open Gpio (pin)

/-! ## Writes -/

/-- A write to a register of one board. -/
structure PinWrite where
  board : Nat
  attr : String
  value : UInt32
  mask : UInt32

/-- The write to the pins that a call is, if it is one. -/
def Call.pinWrite? {α : Type} : Call α → Option PinWrite
  | .setGpio _ attr value mask board => some ⟨board, attr, value, mask⟩
  | _ => none

/-- What the last write to a bit of a register has made of it. -/
def lastPin (board : Nat) (attr : String) (i : Nat) (writes : List PinWrite) : Option Bool :=
  (writes.reverse.find? fun w => w.board = board ∧ w.attr = attr ∧ pin w.mask i).map
    fun w => pin w.value i

theorem lastPin_append (board : Nat) (attr : String) (i : Nat) (early late : List PinWrite) :
    lastPin board attr i (early ++ late) =
      (lastPin board attr i late).or (lastPin board attr i early) := by
  unfold lastPin
  rw [List.reverse_append, List.find?_append, Option.map_or]

theorem lastPin_singleton (board : Nat) (attr : String) (i : Nat) (w : PinWrite) :
    lastPin board attr i [w] =
      if w.board = board ∧ w.attr = attr ∧ pin w.mask i then some (pin w.value i) else none := by
  unfold lastPin
  by_cases h : w.board = board ∧ w.attr = attr ∧ pin w.mask i <;> simp [h]

namespace Device

variable {α : Type} {d d' : Device α}

/-- A write to the pins is accepted if board, bank and register are there, and the register is
not the one for reading back. -/
theorem setGpio_eq_ok_iff {bank attr : String} {value mask : UInt32} {index : Nat} :
    d.setGpio bank attr value mask index = .ok d' ↔ ∃ b a gpio, d.board index = .ok b ∧
      bank = Gpio.bank ∧ attr = a.name ∧ b.gpio.write a value mask = .ok gpio ∧
      d' = d.setBoard index { b with gpio := gpio } := by
  constructor
  · intro h
    obtain ⟨b, hb, h⟩ := bind_eq_ok_iff.1 h
    obtain ⟨a, ha, h⟩ := bind_eq_ok_iff.1 h
    obtain ⟨gpio, hwrite, h⟩ := bind_eq_ok_iff.1 h
    obtain ⟨hbank, hattr⟩ := Gpio.attr_eq_ok_iff.1 ha
    exact ⟨b, a, gpio, hb, hbank, hattr, hwrite, (pure_eq_ok_iff.1 h).symm⟩
  · rintro ⟨b, a, gpio, hb, hbank, hattr, hwrite, rfl⟩
    exact bind_eq_ok_iff.2 ⟨b, hb, bind_eq_ok_iff.2 ⟨a, Gpio.attr_eq_ok_iff.2 ⟨hbank, hattr⟩,
      bind_eq_ok_iff.2 ⟨gpio, hwrite, rfl⟩⟩⟩

/-- The pins of the boards. -/
def gpios (d : Device α) : List Gpio := d.boards.map Board.gpio

/-- One bit of a register of a board. -/
def pinAt (d : Device α) (board : Nat) (a : GpioAttr) (i : Nat) : Bool :=
  (d.gpios[board]?).any fun g => pin (g.register a) i

theorem gpios_eq_some_of_board {board : Nat} {b : Board α} (hb : d.board board = .ok b) :
    d.gpios[board]? = some b.gpio := by
  unfold gpios
  rw [List.getElem?_map, board_eq_ok_iff.1 hb]
  rfl

theorem pinAt_of_board {board : Nat} {b : Board α} (hb : d.board board = .ok b) (a : GpioAttr)
    (i : Nat) : d.pinAt board a i = pin (b.gpio.register a) i := by
  unfold pinAt
  rw [gpios_eq_some_of_board hb]
  rfl

/-- A write changes the bits of its register under its mask, and nothing else on any board. -/
theorem pinAt_setBoard {index : Nat} {b : Board α} {gpio : Gpio} {a : GpioAttr}
    {value mask : UInt32} (hb : d.board index = .ok b)
    (hwrite : b.gpio.write a value mask = .ok gpio) (board : Nat) (other : GpioAttr) (i : Nat) :
    (d.setBoard index { b with gpio := gpio }).pinAt board other i =
      (lastPin board other.name i [⟨index, a.name, value, mask⟩]).getD
        (d.pinAt board other i) := by
  have hset : (d.setBoard index { b with gpio := gpio }).gpios = d.gpios.set index gpio :=
    List.map_set
  rw [lastPin_singleton]
  unfold pinAt
  rw [hset]
  by_cases hboard : index = board
  · subst hboard
    have hold := gpios_eq_some_of_board hb
    have hlt := (List.getElem?_eq_some_iff.1 hold).1
    rw [List.getElem?_set_self hlt, hold, Option.any_some, Option.any_some,
      Gpio.pin_register_write hwrite]
    simp only [true_and, GpioAttr.name_inj, eq_comm (a := a)]
    split <;> rfl
  · rw [List.getElem?_set_ne hboard]
    simp [hboard]

variable [Scalar α]

/-! ## Calls that were accepted -/

/-- The call that a happening is, if it is accepted. -/
def accepted? (d : Device α) : Happening α → Option (Call α)
  | .call looks call => (d.perform looks call).toOption.map fun _ => call
  | _ => none

/-- The calls of a run that are accepted, in order. -/
def accepted (d : Device α) : List (Happening α) → List (Call α)
  | [] => []
  | h :: rest => (d.accepted? h).toList ++ (d.after h).accepted rest

/-- No call but a write to the pins changes any of them. -/
theorem gpios_of_change {call : Call α} (h : Change d call d') (hcall : call.pinWrite? = none) :
    d'.gpios = d.gpios := by
  cases h with
  | nothing | rate | tuned | frontend | office | created | stored => rfl
  | board hb _ _ hgpio => exact map_setBoard hb hgpio
  | clockRate hb => exact map_setBoard hb rfl
  | @spec dir spec index b hb => exact map_setBoard hb (by cases dir <;> rfl)
  | clocks => exact map_setTimeUnknownPulse d _ _ fun _ _ => rfl
  | pins => cases hcall

/-- One call: a bit is that of the write, or else what it was. -/
theorem pinAt_of_perform {looks : Nat → α} {call : Call α} {answer : Answer α}
    (h : d.perform looks call = .ok (answer, d')) (board : Nat) (a : GpioAttr) (i : Nat) :
    d'.pinAt board a i =
      (lastPin board a.name i call.pinWrite?.toList).getD (d.pinAt board a i) := by
  cases call with
  | setGpio bank attr value mask index =>
    obtain ⟨b, written, gpio, hb, -, rfl, hwrite, rfl⟩ :=
      setGpio_eq_ok_iff.1 (eq_ok_of_settle h)
    exact pinAt_setBoard hb hwrite board a i
  | _ =>
    unfold pinAt
    rw [gpios_of_change (perform_change h) rfl]
    rfl

/-- Whatever happens, a bit is that of an accepted write, or else what it was. -/
theorem pinAt_after (d : Device α) (h : Happening α) (board : Nat) (a : GpioAttr) (i : Nat) :
    (d.after h).pinAt board a i =
      (lastPin board a.name i ((d.accepted? h).toList.filterMap Call.pinWrite?)).getD
        (d.pinAt board a i) := by
  cases h with
  | round => rfl
  | issueOn =>
    rw [after_issueOn]
    rfl
  | call looks call =>
    unfold accepted?
    dsimp only
    cases hp : d.perform looks call with
    | error f =>
      rw [after_of_error hp]
      rfl
    | ok result =>
      rw [after_of_ok hp, pinAt_of_perform hp]
      rfl

/-- After a run a bit is that of the last write that was accepted, or else what it was at first. -/
theorem pinAt_foldl_after (d : Device α) (happenings : List (Happening α)) (board : Nat)
    (a : GpioAttr) (i : Nat) :
    (happenings.foldl after d).pinAt board a i =
      (lastPin board a.name i ((d.accepted happenings).filterMap Call.pinWrite?)).getD
        (d.pinAt board a i) := by
  induction happenings generalizing d with
  | nil => rfl
  | cons h rest ih =>
    rw [List.foldl_cons, ih, pinAt_after, accepted, List.filterMap_append, lastPin_append,
      Option.getD_or]

/-- At the opening all bits are zero. -/
theorem pinAt_make {addr : Address} {g : Geometry α} (h : make addr g = .ok d) (board : Nat)
    (a : GpioAttr) (i : Nat) : d.pinAt board a i = false := by
  obtain ⟨-, -, h⟩ := bind_eq_ok_iff.1 h
  obtain ⟨tree, -, h⟩ := bind_eq_ok_iff.1 h
  obtain ⟨boards, hboards, h⟩ := bind_eq_ok_iff.1 h
  cases pure_eq_ok_iff.1 h
  unfold pinAt gpios
  rw [List.getElem?_map]
  cases hb : boards[board]? with
  | none => rfl
  | some b =>
    obtain ⟨-, -, hinitial⟩ := exists_of_mem_mapM hboards (List.mem_of_getElem? hb)
    obtain ⟨rxSpec, -, hinitial⟩ := bind_eq_ok_iff.1 hinitial
    obtain ⟨txSpec, -, hinitial⟩ := bind_eq_ok_iff.1 hinitial
    cases pure_eq_ok_iff.1 hinitial
    exact Gpio.pin_zero i

/-! ## What is read -/

section

variable {board : Nat}

omit [Scalar α] in
/-- Every register of a board that is there can be read. -/
theorem exists_gpio_eq_ok (hboard : board < d.boards.length) (a : GpioAttr) :
    ∃ register, d.gpio Gpio.bank a.name board = .ok register ∧ ∀ i, pin register i =
      if a = .readback then d.pinAt board .out i && d.pinAt board .ddr i
      else d.pinAt board a i := by
  have hb : d.board board = .ok d.boards[board] :=
    board_eq_ok_iff.2 (List.getElem?_eq_getElem hboard)
  refine ⟨d.boards[board].gpio.read a, ?_, fun i => ?_⟩
  · exact bind_eq_ok_iff.2 ⟨_, hb, bind_eq_ok_iff.2 ⟨a, Gpio.attr_eq_ok_iff.2 ⟨rfl, rfl⟩, rfl⟩⟩
  · rw [Gpio.pin_read, pinAt_of_board hb, pinAt_of_board hb, pinAt_of_board hb]

/-- Which writes to the pins are accepted. -/
theorem exists_perform_setGpio_iff {looks : Nat → α} {bank attr : String} {value mask : UInt32} :
    (∃ result, d.perform looks (.setGpio bank attr value mask board) = .ok result) ↔
      board < d.boards.length ∧ bank = Gpio.bank ∧ ∃ a ≠ GpioAttr.readback, attr = a.name := by
  constructor
  · rintro ⟨⟨answer, d'⟩, h⟩
    obtain ⟨b, a, gpio, hb, hbank, hattr, hwrite, -⟩ := setGpio_eq_ok_iff.1 (eq_ok_of_settle h)
    obtain ⟨hlt, -⟩ := List.getElem?_eq_some_iff.1 (board_eq_ok_iff.1 hb)
    exact ⟨hlt, hbank, a, Gpio.exists_write_iff.1 ⟨gpio, hwrite⟩, hattr⟩
  · rintro ⟨hlt, hbank, a, ha, hattr⟩
    obtain ⟨gpio, hwrite⟩ := Gpio.exists_write_iff.2 ha
    have hset := setGpio_eq_ok_iff.2 ⟨_, a, gpio,
      board_eq_ok_iff.2 (List.getElem?_eq_getElem hlt), hbank, hattr, hwrite, rfl⟩
    exact ⟨_, bind_eq_ok_iff.2 ⟨_, hset, rfl⟩⟩

end

/-- After any calls on a radio and its streams, accepted or refused, each bit of a register that
can be written is that of the last write to it that was accepted and had the bit under its mask,
and zero if there was none.  The register for reading back has the bits that are set in both of
the registers for the output and for its direction, and is never written itself.  A write that is
refused leaves the radio as it was. -/
theorem pins_after_happenings {addr : Address} {g : Geometry α} {opened : Device α}
    (hmake : make addr g = .ok opened) (happenings : List (Happening α)) :
    let d := happenings.foldl after opened
    let writes := (opened.accepted happenings).filterMap Call.pinWrite?
    (∀ board, board < d.boards.length →
      (∀ a : GpioAttr, a ≠ .readback → ∃ register, d.gpio Gpio.bank a.name board = .ok register ∧
        ∀ i, pin register i = (lastPin board a.name i writes).getD false) ∧
      ∃ out ddr back, d.gpio Gpio.bank "OUT" board = .ok out ∧
        d.gpio Gpio.bank "DDR" board = .ok ddr ∧ d.gpio Gpio.bank "READBACK" board = .ok back ∧
        ∀ i, pin back i = (pin out i && pin ddr i)) ∧
    ∀ looks bank attr value mask board,
      let call := Call.setGpio bank attr value mask board
      ((∃ result, d.perform looks call = .ok result) ↔
        board < d.boards.length ∧ bank = Gpio.bank ∧ ∃ a ≠ GpioAttr.readback, attr = a.name) ∧
      (attr = "READBACK" → ∃ f, d.perform looks call = .error f) ∧
      ((∃ f, d.perform looks call = .error f) → d.after (.call looks call) = d) := by
  intro d writes
  constructor
  · intro board hboard
    constructor
    · intro a ha
      obtain ⟨register, hread, hpin⟩ := exists_gpio_eq_ok hboard a
      refine ⟨register, hread, fun i => ?_⟩
      rw [hpin, if_neg ha, pinAt_foldl_after, pinAt_make hmake]
    · obtain ⟨out, hout, hpinout⟩ := exists_gpio_eq_ok hboard .out
      obtain ⟨ddr, hddr, hpinddr⟩ := exists_gpio_eq_ok hboard .ddr
      obtain ⟨back, hback, hpinback⟩ := exists_gpio_eq_ok hboard .readback
      refine ⟨out, ddr, back, hout, hddr, hback, fun i => ?_⟩
      rw [hpinback, hpinout, hpinddr, if_pos rfl, if_neg (by decide), if_neg (by decide)]
  · intro looks bank attr value mask board call
    refine ⟨exists_perform_setGpio_iff, fun hattr => ?_, fun ⟨f, hf⟩ => after_of_error hf⟩
    cases hp : d.perform looks call with
    | error f => exact ⟨f, rfl⟩
    | ok result =>
      obtain ⟨-, -, a, ha, hname⟩ := exists_perform_setGpio_iff.1 ⟨result, hp⟩
      have hback : a.name = GpioAttr.readback.name := hname.symm.trans hattr
      exact absurd (GpioAttr.name_inj.1 hback) ha

/-- Of two boards the outputs of the second are written twice under masks that overlap, and then
those of the first; a write to a register that is not there, and one to read back, are refused. -/
def overlappingWrites : List (Happening ℚ) :=
  [.call (fun _ => 0) (.setGpio "FP0" "OUT" 0xff 0x0f 1),
    .call (fun _ => 0) (.setGpio "FP0" "OUT" 0x30 0x3c 1),
    .call (fun _ => 0) (.setGpio "FP0" "READBACK" 0xff 0xff 1),
    .call (fun _ => 0) (.setGpio "FP0" "IN" 0xff 0xff 1),
    .call (fun _ => 0) (.setGpio "FP0" "OUT" 0 0xff 0),
    .call (fun _ => 0) (.setGpio "FP0" "DDR" 0x11 0xff 1)]

/-- The low two bits of the outputs are from the first write, the next four from the second. -/
theorem pins_after_overlappingWrites : ∃ (g : Geometry ℚ) (opened : Device ℚ),
    Geometry.ofAddress Geometry.standard ⟨[("num_mboards", "2")]⟩ = .ok g ∧
      make Address.empty g = .ok opened ∧
      let d := overlappingWrites.foldl after opened
      (∃ out, d.gpio Gpio.bank "OUT" 1 = .ok out ∧
        (List.range 8).filter (pin out) = [0, 1, 4, 5]) ∧
      ∃ f, d.perform (fun _ => 0) (.setGpio "FP0" "READBACK" 0 0xff 1) = .error f := by
  obtain ⟨g, opened, hsize, hmake, htest⟩ := exists_opened Geometry.standard
    ⟨[("num_mboards", "2")]⟩ Address.empty
    (fun opened : Device ℚ =>
      let writes := (opened.accepted overlappingWrites).filterMap Call.pinWrite?
      (overlappingWrites.foldl after opened).boards.length = 2 &&
        (List.range 8).filter (fun i => (lastPin 1 "OUT" i writes).getD false) = [0, 1, 4, 5])
    (by decide +kernel)
  obtain ⟨hlength, hbits⟩ := Bool.and_eq_true_iff.1 htest
  obtain ⟨hread, hwrite⟩ := pins_after_happenings hmake overlappingWrites
  have hsecond : 1 < (overlappingWrites.foldl after opened).boards.length := by
    rw [of_decide_eq_true hlength]
    decide
  refine ⟨g, opened, hsize, hmake, ?_, ?_⟩
  · obtain ⟨out, hout, hpin⟩ := (hread 1 hsecond).1 .out (by decide)
    refine ⟨out, hout, Eq.trans ?_ (of_decide_eq_true hbits)⟩
    exact congrArg (List.filter · (List.range 8)) (funext hpin)
  · exact (hwrite (fun _ => 0) "FP0" "READBACK" 0 0xff 1).2.1 rfl

end Device

end SoftRadio
