import SoftRadio.Proofs.Device.SingleMailbox
import Mathlib.Data.List.Nodup

/-!
# Every channel has a front end of its own

The channels of a direction are the slots that the boards' specifications name, board by board.
Each of them is found at its place and has a front end that no other channel has, whatever has
been done to the radio before.

* `Geometry.Valid`: the sizes that the check lets through; `Geometry.valid_of_ofAddress`.
* `wiring`: the slots that the specifications name, in order.
* `locate_eq`: a channel is looked up in the wiring.
* `Routed`: all specifications fit and there is a front end for every slot; `make` sees to it and
  every call keeps it.
* `ChannelMap`: which channels are found, and where; `Routed.channelMap`.
* `channelMap_after_happenings`: so it is after any calls, and only a specification that is
  accepted changes where the channels of its direction are.
-/

namespace SoftRadio

/-! ## Names of slots -/

theorem Slot.ofName?_of_name {slot : Nat} {name : String} (h : Slot.name slot = .ok name)
    (hslot : slot < 26) : Slot.ofName? name = some slot := by
  have hall : ∀ n < 26, (Slot.name n).toOption.bind Slot.ofName? = some n := by decide
  have hname := hall slot hslot
  rw [h] at hname
  exact hname

theorem Slot.map_ofName?_of_names {slots : List Nat} {names : List String}
    (h : List.Forall₂ (fun slot name => Slot.name slot = .ok name) slots names)
    (hslots : ∀ slot ∈ slots, slot < 26) : names.map Slot.ofName? = slots.map some := by
  induction h with
  | nil => rfl
  | cons hname _ ih =>
    rw [List.map_cons, List.map_cons, ih fun n hn => hslots n (List.mem_cons_of_mem _ hn),
      Slot.ofName?_of_name hname (hslots _ List.mem_cons_self)]

/-- The name that is read as a slot is the name of that slot. -/
theorem Slot.name_of_ofName? {name : String} {slot : Nat} (h : Slot.ofName? name = some slot) :
    Slot.name slot = .ok name := by
  unfold Slot.ofName? at h
  split at h
  next c hc =>
    split at h
    next hcapital =>
      cases h
      simp only [Bool.and_eq_true, decide_eq_true_eq, Char.le_def, UInt32.le_iff_toNat_le]
        at hcapital
      have hlow : 65 ≤ c.toNat := hcapital.1
      have hhigh : c.toNat ≤ 90 := hcapital.2
      have hcode : 65 + (c.toNat - 65) % 256 = c.toNat := by omega
      have hname : String.singleton c = name := by
        rw [← String.ofList_toList (s := name), hc]
        rfl
      unfold Slot.name
      dsimp only
      rw [hcode, if_pos (by omega), Char.ofNat_toNat, hname]
    · cases h
  · cases h

/-- The slots of the initial specification are the first ones in order. -/
theorem Board.fits_initialSpec {channels : Nat} {spec : SubdevSpec} (hpos : 0 < channels)
    (hle : channels ≤ 26) (h : Board.initialSpec channels = .ok spec) : spec.Fits channels := by
  obtain ⟨names, hnames, h⟩ := bind_eq_ok_iff.1 h
  cases pure_eq_ok_iff.1 h
  have hslots : names.map Slot.ofName? = (List.range channels).map some :=
    Slot.map_ofName?_of_names (mapM_eq_ok_iff.1 hnames) fun n hn =>
      Nat.lt_of_lt_of_le (List.mem_range.1 hn) hle
  constructor
  case named =>
    intro p hp
    obtain ⟨name, hname, rfl⟩ := List.mem_map.1 hp
    have hmem : Slot.ofName? name ∈ (List.range channels).map some :=
      hslots ▸ List.mem_map_of_mem hname
    obtain ⟨slot, hslot, heq⟩ := List.mem_map.1 hmem
    exact ⟨slot, heq.symm, List.mem_range.1 hslot⟩
  case subdevice =>
    intro p hp
    obtain ⟨name, -, rfl⟩ := List.mem_map.1 hp
    exact .inr rfl
  case once =>
    rw [List.map_map]
    show (names.map Slot.ofName?).Nodup
    rw [hslots]
    exact List.nodup_range.map fun _ _ h => Option.some.inj h
  case nonempty =>
    intro hnil
    have hlength := congrArg List.length hslots
    rw [List.map_eq_nil_iff.1 hnil, List.length_map, List.length_map, List.length_range] at hlength
    simp at hlength
    omega

@[simp] theorem Board.spec_setSpec_self {α : Type} (b : Board α) (dir : Direction)
    (spec : SubdevSpec) : (b.setSpec dir spec).spec dir = spec := by
  cases dir <;> rfl

theorem Board.spec_setSpec_of_ne {α : Type} (b : Board α) {dir other : Direction}
    (spec : SubdevSpec) (h : other ≠ dir) : (b.setSpec dir spec).spec other = b.spec other := by
  cases dir <;> cases other
  · exact absurd rfl h
  · rfl
  · rfl
  · exact absurd rfl h

/-! ## Sizes -/

/-- A size that a radio can have. -/
structure Geometry.Valid {α : Type} [Scalar α] (g : Geometry α) : Prop where
  boards : 0 < g.boards
  channels : ∀ dir, 0 < g.channels dir ∧ g.channels dir ≤ 26
  clockRate : Scalar.isFinite g.clockRate = true ∧ Scalar.lt (Scalar.ofInt 0) g.clockRate = true
  frameSize : 0 < g.frameSize

/-- The check lets nothing else through. -/
theorem Geometry.valid_of_validate {α : Type} [Scalar α] {g : Geometry α}
    (h : g.validate = .ok ()) : g.Valid := by
  unfold validate at h
  split at h
  · cases h
  next hsome =>
    split at h
    · cases h
    next hfew =>
      split at h
      · cases h
      next hclock =>
        split at h
        · cases h
        next hframes =>
          rw [Bool.not_eq_true', Bool.not_eq_false, Bool.and_eq_true] at hclock
          refine ⟨by omega, fun dir => ?_, hclock, Nat.pos_of_ne_zero hframes⟩
          cases dir <;> dsimp only [channels] <;> omega

theorem Geometry.valid_of_ofAddress {α : Type} [Scalar α] {defaults g : Geometry α}
    {args : Address} (h : Geometry.ofAddress defaults args = .ok g) : g.Valid := by
  obtain ⟨boards, -, h⟩ := bind_eq_ok_iff.1 h
  obtain ⟨rxChannels, -, h⟩ := bind_eq_ok_iff.1 h
  obtain ⟨txChannels, -, h⟩ := bind_eq_ok_iff.1 h
  obtain ⟨clockRate, -, h⟩ := bind_eq_ok_iff.1 h
  obtain ⟨frameSize, -, h⟩ := bind_eq_ok_iff.1 h
  obtain ⟨⟨⟩, hvalid, h⟩ := bind_eq_ok_iff.1 h
  cases pure_eq_ok_iff.1 h
  exact valid_of_validate hvalid

/-- The direction whose channels a call may move to other slots. -/
def Call.rewires {α : Type} : Call α → Option Direction
  | .setSubdevSpec dir .. => some dir
  | _ => none

namespace Device

variable {α : Type} {d d' : Device α} {dir : Direction}

/-! ## The wiring -/

/-- The slots that some boards' specifications name, with the numbers of their boards, which are
counted from `index`. -/
def wiringFrom (dir : Direction) : (index : Nat) → List (Board α) → List (Nat × String)
  | _, [] => []
  | index, b :: rest =>
    (b.spec dir).pairs.map (fun p => (index, p.slot)) ++ wiringFrom dir (index + 1) rest

/-- The slots behind the channels of a direction, in the order of the boards and, on each of
them, of its specification. -/
def wiring (d : Device α) (dir : Direction) : List (Nat × String) := wiringFrom dir 0 d.boards

theorem length_wiringFrom (dir : Direction) (index : Nat) (boards : List (Board α)) :
    (wiringFrom dir index boards).length =
      boards.foldr (fun b rest => (b.spec dir).size + rest) 0 := by
  induction boards generalizing index with
  | nil => rfl
  | cons b rest ih =>
    rw [wiringFrom, List.length_append, List.length_map, ih, List.foldr_cons]
    rfl

/-- There are as many channels as slots are named. -/
theorem length_wiring (d : Device α) (dir : Direction) :
    (d.wiring dir).length = d.channelCount dir :=
  length_wiringFrom dir 0 d.boards

/-- The place of a slot of a board. -/
def placeOf (d : Device α) (dir : Direction) (w : Nat × String) : Except Fault Location := do
  let slot ← d.slotIndex dir w.2
  return ⟨w.1, w.1 * d.geometry.channels dir + slot, slot⟩

/-- A channel is looked up among the slots of the boards that are left. -/
theorem locateFrom_eq (d : Device α) (dir : Direction) {chan passed : Nat} (h : passed ≤ chan)
    (index : Nat) (boards : List (Board α)) :
    d.locateFrom dir chan index passed boards =
      match (wiringFrom dir index boards)[chan - passed]? with
      | some w => d.placeOf dir w
      | none => refuse (.noChannel dir chan (passed + (wiringFrom dir index boards).length)) := by
  induction boards generalizing index passed with
  | nil => rfl
  | cons b rest ih =>
    unfold locateFrom wiringFrom
    by_cases hhere : chan - passed < (b.spec dir).pairs.length
    · rw [List.getElem?_eq_getElem hhere,
        List.getElem?_append_left (by rwa [List.length_map]), List.getElem?_map,
        List.getElem?_eq_getElem hhere]
      rfl
    · have hsize : (b.spec dir).size = (b.spec dir).pairs.length := rfl
      have hpassed : passed + (b.spec dir).size ≤ chan := by omega
      have hleft : chan - passed - (b.spec dir).pairs.length =
          chan - (passed + (b.spec dir).size) := by omega
      have hcount : passed + (b.spec dir).size + (wiringFrom dir (index + 1) rest).length =
          passed + ((b.spec dir).pairs.length + (wiringFrom dir (index + 1) rest).length) := by
        omega
      rw [List.getElem?_eq_none (by omega),
        List.getElem?_append_right (by rw [List.length_map]; omega), List.length_map,
        List.length_append, List.length_map]
      dsimp only
      rw [ih hpassed, hleft, hcount]

/-- A channel is looked up in the wiring. -/
theorem locate_eq (d : Device α) (dir : Direction) (chan : Nat) :
    d.locate dir chan =
      match (d.wiring dir)[chan]? with
      | some w => d.placeOf dir w
      | none => refuse (.noChannel dir chan (d.channelCount dir)) := by
  unfold locate
  rw [locateFrom_eq d dir (Nat.zero_le chan), Nat.sub_zero, Nat.zero_add,
    length_wiringFrom]
  rfl

theorem wiringFrom_congr {dir : Direction} {index : Nat} {boards boards' : List (Board α)}
    (h : boards'.map (·.spec dir) = boards.map (·.spec dir)) :
    wiringFrom dir index boards' = wiringFrom dir index boards := by
  induction boards generalizing boards' index with
  | nil => rw [List.map_eq_nil_iff.1 h]
  | cons b rest ih =>
    obtain ⟨b', rest', rfl, hb, hrest⟩ := List.map_eq_cons_iff.1 h
    rw [wiringFrom, wiringFrom, ih hrest, hb]

/-- Where channels are hangs on the specifications of their direction and the number of slots. -/
theorem locate_congr (hspec : d'.boards.map (·.spec dir) = d.boards.map (·.spec dir))
    (hsize : d'.geometry.channels dir = d.geometry.channels dir) (chan : Nat) :
    d'.locate dir chan = d.locate dir chan := by
  have hwiring : d'.wiring dir = d.wiring dir := wiringFrom_congr hspec
  have hplace : d'.placeOf dir = d.placeOf dir := by
    funext w
    unfold placeOf slotIndex
    rw [hsize]
  rw [locate_eq, locate_eq, hwiring, hplace, ← length_wiring, ← length_wiring, hwiring]

/-! ## Specifications that fit -/

/-- Every specification names slots there are, each once, and every slot of every board has a
front end. -/
structure Routed (d : Device α) : Prop where
  fits : ∀ b ∈ d.boards, ∀ dir, (b.spec dir).Fits (d.geometry.channels dir)
  frontends : ∀ dir, (d.frontends.get dir).length = d.boards.length * d.geometry.channels dir

theorem board_eq_ok_iff {index : Nat} {b : Board α} :
    d.board index = .ok b ↔ d.boards[index]? = some b := by
  unfold board
  cases d.boards[index]? with
  | none => simp [refuse]
  | some c => simp

/-- To write what is there is to write nothing. -/
theorem setBoard_self {index : Nat} {b : Board α} (h : d.board index = .ok b) :
    d.setBoard index b = d := by
  obtain ⟨hlt, rfl⟩ := List.getElem?_eq_some_iff.1 (board_eq_ok_iff.1 h)
  unfold setBoard
  rw [List.set_getElem_self]

theorem mem_of_board {index : Nat} {b : Board α} (h : d.board index = .ok b) : b ∈ d.boards :=
  List.mem_of_getElem? (board_eq_ok_iff.1 h)

theorem Routed.setBoard (hd : d.Routed) {index : Nat} {b : Board α}
    (hb : ∀ dir, (b.spec dir).Fits (d.geometry.channels dir)) : (d.setBoard index b).Routed := by
  constructor
  case fits =>
    intro b' hb' side
    rcases List.mem_or_eq_of_mem_set hb' with hmem | rfl
    · exact hd.fits b' hmem side
    · exact hb side
  case frontends =>
    intro side
    show (d.frontends.get side).length = (d.boards.set index b).length * d.geometry.channels side
    rw [List.length_set]
    exact hd.frontends side

theorem Routed.setFrontend (hd : d.Routed) (dir : Direction) (index : Nat) (fe : Frontend α) :
    (d.setFrontend dir index fe).Routed := by
  constructor
  case fits => exact hd.fits
  case frontends =>
    intro side
    refine Eq.trans ?_ (hd.frontends side)
    by_cases hside : side = dir
    · subst hside
      show ((d.frontends.set side _).get side).length = _
      rw [Sides.get_set_self, List.length_set]
    · exact congrArg List.length (Sides.get_set_of_ne d.frontends _ hside)

/-! ## Each channel in its place -/

theorem mem_wiringFrom {index : Nat} {boards : List (Board α)} {w : Nat × String}
    (h : w ∈ wiringFrom dir index boards) :
    (∃ b ∈ boards, ∃ p ∈ (b.spec dir).pairs, w.2 = p.slot) ∧
      index ≤ w.1 ∧ w.1 < index + boards.length := by
  induction boards generalizing index with
  | nil => cases h
  | cons b rest ih =>
    rw [List.length_cons]
    rcases List.mem_append.1 h with h | h
    · obtain ⟨p, hp, rfl⟩ := List.mem_map.1 h
      exact ⟨⟨b, List.mem_cons_self, p, hp, rfl⟩, by dsimp only; omega, by dsimp only; omega⟩
    · obtain ⟨⟨b', hb', hp⟩, hlow, hhigh⟩ := ih h
      exact ⟨⟨b', List.mem_cons_of_mem _ hb', hp⟩, by omega, by omega⟩

/-- No slot of a board is wired twice. -/
theorem nodup_wiringFrom {count : Nat} {boards : List (Board α)}
    (h : ∀ b ∈ boards, (b.spec dir).Fits count) (index : Nat) :
    ((wiringFrom dir index boards).map fun w => (w.1, Slot.ofName? w.2)).Nodup := by
  induction boards generalizing index with
  | nil => exact List.nodup_nil
  | cons b rest ih =>
    rw [wiringFrom, List.map_append, List.map_map]
    refine List.nodup_append.2 ⟨?_, ih (fun c hc => h c (List.mem_cons_of_mem _ hc)) _, ?_⟩
    · have honce := (h b List.mem_cons_self).once.map (Prod.mk_right_injective index)
      rw [List.map_map] at honce
      exact honce
    · intro here hhere later hlater heq
      obtain ⟨p, -, rfl⟩ := List.mem_map.1 hhere
      obtain ⟨w, hw, rfl⟩ := List.mem_map.1 hlater
      have hindex : index = w.1 := congrArg Prod.fst heq
      have hlow := (mem_wiringFrom hw).2.1
      omega

/-- A number is in one way a multiple and a remainder. -/
theorem eq_of_mul_add_eq {n i j s t : Nat} (hs : s < n) (ht : t < n)
    (h : i * n + s = j * n + t) : i = j ∧ s = t := by
  have hmod : s = t := by
    have hrest := congrArg (· % n) h
    simpa [Nat.mul_add_mod_of_lt, Nat.mod_eq_of_lt hs, Nat.mod_eq_of_lt ht] using hrest
  refine ⟨?_, hmod⟩
  have hmul : i * n = j * n := by omega
  exact Nat.eq_of_mul_eq_mul_right (by omega) hmul

/-- What is wired has a place on its board. -/
theorem Routed.exists_placeOf (hd : d.Routed) {w : Nat × String} (hw : w ∈ d.wiring dir) :
    w.1 < d.boards.length ∧ ∃ slot, Slot.ofName? w.2 = some slot ∧
      slot < d.geometry.channels dir ∧
      d.placeOf dir w = .ok ⟨w.1, w.1 * d.geometry.channels dir + slot, slot⟩ := by
  obtain ⟨⟨b, hb, p, hp, hname⟩, -, hlt⟩ := mem_wiringFrom hw
  obtain ⟨slot, hslot, hbound⟩ := (hd.fits b hb dir).named p hp
  rw [← hname] at hslot
  refine ⟨by omega, slot, hslot, hbound, ?_⟩
  unfold placeOf
  rw [slotIndex_eq_ok_iff.2 ⟨hslot, hbound⟩]
  rfl

theorem Routed.locate_of_lt (hd : d.Routed) {chan : Nat} (h : chan < d.channelCount dir) :
    ∃ w slot, (d.wiring dir)[chan]? = some w ∧ w.1 < d.boards.length ∧
      Slot.ofName? w.2 = some slot ∧ slot < d.geometry.channels dir ∧
      d.locate dir chan = .ok ⟨w.1, w.1 * d.geometry.channels dir + slot, slot⟩ := by
  rw [← length_wiring] at h
  obtain ⟨hboard, slot, hslot, hbound, hplace⟩ := hd.exists_placeOf (List.getElem_mem h)
  refine ⟨_, slot, List.getElem?_eq_getElem h, hboard, hslot, hbound, ?_⟩
  rw [locate_eq, List.getElem?_eq_getElem h]
  exact hplace

theorem locate_of_le {chan : Nat} (h : d.channelCount dir ≤ chan) :
    d.locate dir chan = refuse (.noChannel dir chan (d.channelCount dir)) := by
  rw [← length_wiring] at h
  rw [locate_eq, List.getElem?_eq_none h]

theorem lt_of_locate {chan : Nat} {place : Location} (h : d.locate dir chan = .ok place) :
    chan < d.channelCount dir := by
  by_contra hnot
  rw [locate_of_le (Nat.le_of_not_lt hnot)] at h
  cases h

/-- Channels with one front end are one channel. -/
theorem Routed.eq_of_frontend_eq (hd : d.Routed) {chan other : Nat} {place place' : Location}
    (hplace : d.locate dir chan = .ok place) (hplace' : d.locate dir other = .ok place')
    (hsame : place.frontend = place'.frontend) : chan = other := by
  obtain ⟨w, slot, hw, -, hslot, hbound, hfound⟩ := hd.locate_of_lt (lt_of_locate hplace)
  obtain ⟨w', slot', hw', -, hslot', hbound', hfound'⟩ :=
    hd.locate_of_lt (lt_of_locate hplace')
  rw [hplace] at hfound
  rw [hplace'] at hfound'
  cases hfound
  cases hfound'
  obtain ⟨hboard, hslots⟩ := eq_of_mul_add_eq hbound hbound' hsame
  -- the two channels are wired to the same slot of the same board, hence one and the same
  have hnodup := nodup_wiringFrom (fun b hb => hd.fits b hb dir) 0
  refine (List.getElem?_inj ?_ hnodup).1 ?_
  · rw [List.length_map, show (wiringFrom dir 0 d.boards).length = _ from length_wiring d dir]
    exact lt_of_locate hplace
  · show ((d.wiring dir).map _)[chan]? = ((d.wiring dir).map _)[other]?
    rw [List.getElem?_map, List.getElem?_map, hw, hw', Option.map_some, Option.map_some, hboard,
      hslot, hslot', hslots]

/-- A channel there is has its board, its front end and the letter of its slot. -/
theorem Routed.channel_of_lt (hd : d.Routed) {dir : Direction} {chan : Nat}
    (h : chan < d.channelCount dir) :
    ∃ place fe clock name, d.locate dir chan = .ok place ∧
      d.channel dir chan = .ok (place, fe, clock) ∧ place.board < d.boards.length ∧
      place.slot < d.geometry.channels dir ∧ Slot.name place.slot = .ok name := by
  obtain ⟨w, slot, hw, hboard, hslot, hbound, hplace⟩ := hd.locate_of_lt h
  have hindex : w.1 * d.geometry.channels dir + slot < (d.frontends.get dir).length := by
    have hinside := locateFrom_lt hplace
    rw [Nat.zero_add] at hinside
    rw [hd.frontends]
    exact hinside
  obtain ⟨fe, hfe⟩ : ∃ fe, d.frontend dir (w.1 * d.geometry.channels dir + slot) = .ok fe := by
    refine ⟨(d.frontends.get dir)[w.1 * d.geometry.channels dir + slot], ?_⟩
    unfold frontend
    rw [List.getElem?_eq_getElem hindex]
  have hb : d.board w.1 = .ok _ := board_eq_ok_iff.2 (List.getElem?_eq_getElem hboard)
  refine ⟨_, fe, d.boards[w.1].clockRate, w.2, hplace, ?_, hboard, hbound,
    Slot.name_of_ofName? hslot⟩
  exact bind_eq_ok_iff.2 ⟨_, hplace, bind_eq_ok_iff.2 ⟨_, hb, bind_eq_ok_iff.2 ⟨_, hfe, rfl⟩⟩⟩

/-- Where the channels of a direction are. -/
structure ChannelMap (d : Device α) (dir : Direction) : Prop where
  /-- The channels that are found are those there are. -/
  found : ∀ chan, (∃ place, d.locate dir chan = .ok place) ↔ chan < d.channelCount dir
  /-- Any other is refused, with how many there are. -/
  refused : ∀ chan, ¬ chan < d.channelCount dir →
    d.locate dir chan = refuse (.noChannel dir chan (d.channelCount dir)) ∧
      (Error.noChannel dir chan (d.channelCount dir)).kind = .index
  /-- No two channels share a front end. -/
  apart : ∀ chan other place place', d.locate dir chan = .ok place →
    d.locate dir other = .ok place' → place.frontend = place'.frontend → chan = other
  /-- The channels are, in order, the slots that the specifications name. -/
  wired : List.Forall₂ (fun chan w => ∃ place, d.locate dir chan = .ok place ∧
      place.board = w.1 ∧ Slot.name place.slot = .ok w.2 ∧
      place.frontend = place.board * d.geometry.channels dir + place.slot)
    (List.range (d.channelCount dir)) (d.wiring dir)
  /-- The front end of a channel is there, and its mailbox if it receives. -/
  inside : ∀ chan place, d.locate dir chan = .ok place →
    place.frontend < (d.frontends.get dir).length ∧
      (dir = .rx → place.frontend < d.office.boxes.length)

theorem Routed.channelMap (hd : d.Routed) (hsized : d.Sized) (dir : Direction) :
    d.ChannelMap dir := by
  constructor
  case found =>
    intro chan
    constructor
    · rintro ⟨place, hplace⟩
      exact lt_of_locate hplace
    · intro hlt
      obtain ⟨w, slot, -, -, -, -, hplace⟩ := hd.locate_of_lt hlt
      exact ⟨_, hplace⟩
  case refused => exact fun chan hnot => ⟨locate_of_le (Nat.le_of_not_lt hnot), rfl⟩
  case apart => exact fun _ _ _ _ => hd.eq_of_frontend_eq
  case wired =>
    refine List.forall₂_iff_get.2
      ⟨by rw [List.length_range, length_wiring], fun chan hlt hwired => ?_⟩
    rw [List.length_range] at hlt
    obtain ⟨w, slot, hw, -, hslot, -, hplace⟩ := hd.locate_of_lt hlt
    have hget : (d.wiring dir).get ⟨chan, hwired⟩ = w := by
      rw [List.getElem?_eq_getElem hwired] at hw
      exact Option.some.inj hw
    rw [hget, List.get_eq_getElem, List.getElem_range]
    exact ⟨_, hplace, rfl, Slot.name_of_ofName? hslot, rfl⟩
  case inside =>
    intro chan place hplace
    have hlt := locateFrom_lt hplace
    rw [Nat.zero_add] at hlt
    refine ⟨by rw [hd.frontends]; exact hlt, ?_⟩
    rintro rfl
    exact frontend_lt_of_locate hsized hplace

/-! ## What a call does to the wiring -/

/-- What a new board has in common with the one before it, all boards have in common. -/
theorem map_setBoard {β : Type} {f : Board α → β} {index : Nat} {b b' : Board α}
    (hb : d.board index = .ok b) (h : f b' = f b) :
    (d.setBoard index b').boards.map f = d.boards.map f := by
  obtain ⟨hlt, hget⟩ := List.getElem?_eq_some_iff.1 (board_eq_ok_iff.1 hb)
  show (d.boards.set index b').map f = _
  have hmapped : index < (d.boards.map f).length := by rwa [List.length_map]
  have hold : f b = (d.boards.map f)[index] := by rw [List.getElem_map, hget]
  rw [List.map_set, h, hold, List.set_getElem_self]

variable [Scalar α]

theorem Routed.setTimeUnknownPulse (hd : d.Routed) (time : TimeSpec α) (looks : Nat → α) :
    (d.setTimeUnknownPulse time looks).Routed := by
  constructor
  case fits =>
    intro b hb side
    obtain ⟨⟨b', i⟩, hmem, rfl⟩ := List.mem_map.1 hb
    have hfits := hd.fits b' (List.fst_mem_of_mem_zipIdx hmem) side
    cases side <;> exact hfits
  case frontends =>
    intro side
    show (d.frontends.get side).length = (List.map _ d.boards.zipIdx).length * _
    rw [List.length_map, List.length_zipIdx]
    exact hd.frontends side

/-- Whatever a call changes, the specifications still fit. -/
theorem Routed.of_change (hd : d.Routed) {call : Call α} (h : Change d call d') : d'.Routed := by
  cases h with
  | nothing => exact hd
  | board hb hspec =>
    refine hd.setBoard fun side => ?_
    rw [hspec]
    exact hd.fits _ (mem_of_board hb) side
  | clockRate hb | pins hb =>
    refine hd.setBoard fun side => ?_
    have hfits := hd.fits _ (mem_of_board hb) side
    cases side <;> exact hfits
  | clocks => exact hd.setTimeUnknownPulse _ _
  | @spec dir spec index b hb hfits =>
    refine hd.setBoard fun side => ?_
    by_cases hside : side = dir
    · rw [hside, Board.spec_setSpec_self]
      exact hfits
    · rw [b.spec_setSpec_of_ne spec hside]
      exact hd.fits b (mem_of_board hb) side
  | rate | tuned | frontend => exact hd.setFrontend _ _ _
  | office | created | stored => exact ⟨hd.fits, hd.frontends⟩

theorem after_of_ok {looks : Nat → α} {call : Call α} {answer : Answer α}
    (h : d.perform looks call = .ok (answer, d')) : d.after (.call looks call) = d' := by
  unfold after
  dsimp only
  rw [h]

theorem after_of_error {looks : Nat → α} {call : Call α} {f : Fault}
    (h : d.perform looks call = .error f) : d.after (.call looks call) = d := by
  unfold after
  dsimp only
  rw [h]

/-- Whatever happens to a radio is a change of one of the kinds that calls make. -/
theorem exists_change_after (d : Device α) (h : Happening α) :
    ∃ call, Change d call (d.after h) := by
  cases h with
  | round elapsed wanted onePacket buffers => exact ⟨.boardCount, .nothing ⟨rfl, rfl⟩⟩
  | issueOn other command elapsed =>
    rw [after_issueOn]
    exact ⟨.issue command 0, .office⟩
  | call looks call =>
    cases hp : d.perform looks call with
    | error f =>
      rw [after_of_error hp]
      exact ⟨.boardCount, .nothing ⟨rfl, rfl⟩⟩
    | ok result =>
      rw [after_of_ok hp]
      exact ⟨call, perform_change hp⟩

/-- What every change keeps is kept in the long run. -/
theorem foldl_after_of_change {I : Device α → Prop}
    (hkeeps : ∀ {d d' : Device α} {call : Call α}, I d → Change d call d' → I d') (hd : I d)
    (happenings : List (Happening α)) : I (happenings.foldl after d) := by
  induction happenings generalizing d with
  | nil => exact hd
  | cons h happenings ih =>
    obtain ⟨call, hchange⟩ := exists_change_after d h
    exact ih (hkeeps hd hchange)

theorem routed_foldl_after (hd : d.Routed) (happenings : List (Happening α)) :
    (happenings.foldl after d).Routed :=
  foldl_after_of_change (fun hd h => hd.of_change h) hd happenings

/-- A radio is opened at the size that was asked for. -/
theorem size_of_make {addr : Address} {g : Geometry α} (h : make addr g = .ok d) :
    d.geometry = g ∧ d.boards.length = g.boards := by
  obtain ⟨-, -, h⟩ := bind_eq_ok_iff.1 h
  obtain ⟨tree, -, h⟩ := bind_eq_ok_iff.1 h
  obtain ⟨boards, hboards, h⟩ := bind_eq_ok_iff.1 h
  cases pure_eq_ok_iff.1 h
  exact ⟨rfl, by rw [length_of_mapM_eq_ok hboards, List.length_range]⟩

theorem routed_make {defaults g : Geometry α} {args addr : Address}
    (hsize : Geometry.ofAddress defaults args = .ok g) (h : make addr g = .ok d) : d.Routed := by
  have hlength := (size_of_make h).2
  obtain ⟨-, -, h⟩ := bind_eq_ok_iff.1 h
  obtain ⟨tree, -, h⟩ := bind_eq_ok_iff.1 h
  obtain ⟨boards, hboards, h⟩ := bind_eq_ok_iff.1 h
  cases pure_eq_ok_iff.1 h
  constructor
  case fits =>
    intro b hb side
    obtain ⟨-, -, hinitial⟩ := exists_of_mem_mapM hboards hb
    obtain ⟨rxSpec, hrx, hinitial⟩ := bind_eq_ok_iff.1 hinitial
    obtain ⟨txSpec, htx, hinitial⟩ := bind_eq_ok_iff.1 hinitial
    cases pure_eq_ok_iff.1 hinitial
    obtain ⟨hpos, hle⟩ := (Geometry.valid_of_ofAddress hsize).channels side
    cases side with
    | rx => exact Board.fits_initialSpec hpos hle hrx
    | tx => exact Board.fits_initialSpec hpos hle htx
  case frontends =>
    intro side
    cases side <;> simp [Sides.get, Geometry.channels, hlength]

/-! ## What moves a channel -/

theorem map_setTimeUnknownPulse {β : Type} {f : Board α → β} (d : Device α) (time : TimeSpec α)
    (looks : Nat → α) (h : ∀ (b : Board α) clock, f { b with clock := clock } = f b) :
    (d.setTimeUnknownPulse time looks).boards.map f = d.boards.map f := by
  show (d.boards.zipIdx.map _).map _ = _
  rw [List.map_map]
  conv => rhs; rw [← List.zipIdx_map_fst 0 d.boards, List.map_map]
  exact List.map_congr_left fun ⟨b, i⟩ _ => h b _

/-- A call leaves the channels where they are, unless it sets a specification of their
direction. -/
theorem locate_of_change {call : Call α} (h : Change d call d') (hdir : call.rewires ≠ some dir)
    (chan : Nat) : d'.locate dir chan = d.locate dir chan := by
  cases h with
  | nothing => rfl
  | rate | tuned | frontend | office | created | stored =>
    exact locate_congr (by rfl) (by rfl) chan
  | board hb hspec => exact locate_congr (map_setBoard hb (hspec dir)) rfl chan
  | clockRate hb | pins hb =>
    exact locate_congr (map_setBoard hb (by cases dir <;> rfl)) rfl chan
  | clocks =>
    have hspec : ∀ (b : Board α) clock, { b with clock := clock }.spec dir = b.spec dir := by
      intro b clock
      cases dir <;> rfl
    exact locate_congr (map_setTimeUnknownPulse d _ _ hspec) rfl chan
  | @spec side spec index b hb hfits =>
    have hside : dir ≠ side := fun h => hdir (congrArg some h.symm)
    exact locate_congr (map_setBoard hb (b.spec_setSpec_of_ne spec hside)) rfl chan

/-- After any calls on a radio and its streams, accepted or refused, the channels of either
direction are the slots that the specifications name, with a front end each; and nothing but an
accepted specification for a direction moves a channel of that direction. -/
theorem channelMap_after_happenings {defaults g : Geometry α} {args addr : Address}
    {opened : Device α} (hsize : Geometry.ofAddress defaults args = .ok g)
    (hmake : make addr g = .ok opened) (happenings : List (Happening α)) :
    let d := happenings.foldl after opened
    (∀ dir, d.ChannelMap dir) ∧
      ∀ looks call dir, (call.rewires ≠ some dir ∨ ∃ f, d.perform looks call = .error f) →
        ∀ chan, (d.after (.call looks call)).locate dir chan = d.locate dir chan := by
  intro d
  have hrouted : d.Routed := routed_foldl_after (routed_make hsize hmake) happenings
  have hsized : d.Sized := sized_foldl_after (sized_make hmake) happenings
  refine ⟨hrouted.channelMap hsized, fun looks call dir hcall chan => ?_⟩
  cases hp : d.perform looks call with
  | error f => rw [after_of_error hp]
  | ok result =>
    rw [after_of_ok hp]
    rcases hcall with hdir | ⟨f, hf⟩
    · exact locate_of_change (perform_change hp) hdir chan
    · rw [hp] at hf
      cases hf

/-- A radio that opens and passes a test. -/
theorem exists_opened (defaults : Geometry α) (args addr : Address) (test : Device α → Bool)
    (h : (do
      let g ← Geometry.ofAddress defaults args
      let opened ← make addr g
      return test opened).toOption = some true) :
    ∃ g opened, Geometry.ofAddress defaults args = .ok g ∧ make addr g = .ok opened ∧
      test opened = true := by
  obtain ⟨g, hsize, h⟩ := bind_eq_ok_iff.1 (toOption_eq_some_iff.1 h)
  obtain ⟨opened, hmake, h⟩ := bind_eq_ok_iff.1 h
  exact ⟨g, opened, hsize, hmake, pure_eq_ok_iff.1 h⟩

/-- On the first of two boards slot `B` is left as the only one; then slot `C`, which is not
there, is refused for the second. -/
def respecified : List (Happening ℚ) :=
  [.call (fun _ => 0) (.setSubdevSpec .rx ⟨[⟨"B", "0"⟩]⟩ 0),
    .call (fun _ => 0) (.setSubdevSpec .rx ⟨[⟨"C", "0"⟩]⟩ 1)]

/-- Of four receive channels three are left, and the fourth is no longer found. -/
theorem channels_respecified : ∃ (g : Geometry ℚ) (opened : Device ℚ),
    Geometry.ofAddress Geometry.standard ⟨[("num_mboards", "2")]⟩ = .ok g ∧
      make Address.empty g = .ok opened ∧
      (∃ place, (respecified.foldl after opened).locate .rx 2 = .ok place) ∧
      ¬ ∃ place, (respecified.foldl after opened).locate .rx 3 = .ok place := by
  obtain ⟨g, opened, hsize, hmake, hcount⟩ := exists_opened Geometry.standard
    ⟨[("num_mboards", "2")]⟩ Address.empty
    (fun opened : Device ℚ => (respecified.foldl after opened).channelCount .rx = 3)
    (by decide +kernel)
  have hthree : (respecified.foldl after opened).channelCount .rx = 3 := of_decide_eq_true hcount
  obtain ⟨hmap, -⟩ := channelMap_after_happenings hsize hmake respecified
  have hfound := (hmap .rx).found
  refine ⟨g, opened, hsize, hmake, (hfound 2).2 ?_, fun h => ?_⟩
  · rw [hthree]
    decide
  · have hlt := (hfound 3).1 h
    rw [hthree] at hlt
    exact absurd hlt (by decide)

end Device

end SoftRadio
