import SoftRadio.Proofs.Device.Channels
import SoftRadio.Proofs.PropertyTree

/-!
# The labels of a radio

When a radio is opened, the name and the memory of each board and the memories of its
daughterboards are put into the property tree.  No two of them are put at one path, so that none
is in the way of another and all are there.

* `Label`: the nodes that a radio is opened with, with their paths, types and first values.
* `Label.normal_path_inj`: no two labels are at one path.
* `tree_make`: the tree of a radio that was just opened; `value_make`, `find?_make`: what is
  found in it.
-/

namespace SoftRadio

open PropertyTree

/-- The letter of a slot. -/
def Slot.letter (slot : Nat) : Char := Char.ofNat (65 + slot)

theorem Slot.name_eq {slot : Nat} (h : slot < 26) :
    Slot.name slot = .ok (String.singleton (letter slot)) := by
  unfold Slot.name
  dsimp only
  rw [Nat.mod_eq_of_lt (by omega), if_pos (by omega)]
  rfl

theorem Slot.letter_inj {slot other : Nat} (h : slot < 26) (hother : other < 26)
    (heq : letter slot = letter other) : slot = other := by
  have hall : ∀ n < 26, (letter n).toNat = 65 + n := by decide
  have hcode := congrArg Char.toNat heq
  rw [hall slot h, hall other hother] at hcode
  omega

theorem Slot.component_letter {slot : Nat} (h : slot < 26) :
    TreePath.Component [letter slot] := by
  have hall : ∀ n < 26, letter n ≠ '/' := by decide
  exact ⟨List.cons_ne_nil _ _, fun hmem => hall slot h (List.mem_singleton.1 hmem).symm⟩

/-- Every slot of a radio of this size has a letter of its own. -/
def Geometry.Lettered {α : Type} (g : Geometry α) : Prop := ∀ dir, g.channels dir ≤ 26

theorem Geometry.lettered_of_ofAddress {α : Type} [Scalar α] {defaults g : Geometry α}
    {args : Address} (h : Geometry.ofAddress defaults args = .ok g) : g.Lettered :=
  fun dir => ((valid_of_ofAddress h).channels dir).2

/-! ## Labels -/

/-- A node that a radio is opened with: the name of a board, its memory, or the memory of the
daughterboard for a direction in one of its slots. -/
inductive Label where
  | name (board : Nat)
  | board (board : Nat)
  | daughter (board slot : Nat) (dir : Direction)
  deriving DecidableEq

namespace Label

/-- The components of the path of a label. -/
def parts : Label → List (List Char)
  | name b => ["mboards".toList, Nat.toDigits 10 b, "name".toList]
  | board b => ["mboards".toList, Nat.toDigits 10 b, "eeprom".toList]
  | daughter b slot dir =>
    ["mboards".toList, Nat.toDigits 10 b, "dboards".toList, [Slot.letter slot],
      (dir.name ++ "_eeprom").toList]

def path (l : Label) : String := TreePath.ofComponents l.parts

theorem path_name (b : Nat) : (name b).path = s!"/mboards/{b}/name" := by
  show _ = "/mboards/" ++ b.repr ++ "/name"
  simp [path, parts, TreePath.ofComponents, ← String.toList_inj]

theorem path_board (b : Nat) : (board b).path = mboardEepromPath b := by
  show _ = "/mboards/" ++ b.repr ++ "/eeprom"
  simp [path, parts, TreePath.ofComponents, ← String.toList_inj]

theorem path_daughter (b slot : Nat) (dir : Direction) :
    (daughter b slot dir).path =
      dboardEepromPath b (String.singleton (Slot.letter slot)) dir.name := by
  show _ = "/mboards/" ++ b.repr ++ "/dboards/" ++ String.singleton (Slot.letter slot) ++ "/" ++
    dir.name ++ "_eeprom"
  simp [path, parts, TreePath.ofComponents, ← String.toList_inj]

/-- A label whose slot, if it has one, has a letter of its own. -/
def Lettered : Label → Prop
  | daughter _ slot _ => slot < 26
  | _ => True

theorem component_of_mem_parts {l : Label} (hl : l.Lettered) :
    ∀ part ∈ l.parts, TreePath.Component part := by
  have hword : ∀ s : String, s.toList ≠ [] ∧ '/' ∉ s.toList → TreePath.Component s.toList :=
    fun s hs => ⟨hs.1, hs.2⟩
  cases l with
  | name b | board b =>
    simp only [parts, List.forall_mem_cons]
    exact ⟨hword _ (by decide), TreePath.component_toDigits b, hword _ (by decide), nofun⟩
  | daughter b slot dir =>
    simp only [parts, List.forall_mem_cons]
    exact ⟨hword _ (by decide), TreePath.component_toDigits b, hword _ (by decide),
      Slot.component_letter hl, hword _ (by cases dir <;> decide), nofun⟩

/-- No two labels are at one path, however it is written. -/
theorem normal_path_inj {l other : Label} (hl : l.Lettered) (hother : other.Lettered)
    (h : TreePath.normal l.path = TreePath.normal other.path) : l = other := by
  have hparts : l.parts = other.parts := by
    rw [path, path, TreePath.normal_ofComponents (component_of_mem_parts hl),
      TreePath.normal_ofComponents (component_of_mem_parts hother)] at h
    exact TreePath.ofComponents_inj (component_of_mem_parts hl) (component_of_mem_parts hother) h
  cases l <;> cases other <;>
    simp only [parts, List.cons.injEq, true_and, and_true, reduceCtorEq, and_false] at hparts
  case name.name => rw [TreePath.toDigits_inj hparts]
  case board.board => rw [TreePath.toDigits_inj hparts]
  case daughter.daughter b slot dir b' slot' dir' =>
    obtain ⟨hb, hslot, hdir⟩ := hparts
    rw [TreePath.toDigits_inj hb, Slot.letter_inj hl hother hslot]
    cases dir <;> cases dir' <;> first | rfl | exact absurd hdir (by decide)
  all_goals exact absurd hparts.2 (by decide)

section

variable {α : Type} (g : Geometry α) (addr : Address)

/-- What a board's memory holds at first. -/
def memory (b : Nat) : Address :=
  ((Address.empty.set "serial" (Device.boardSerial (addr.getD "serial" "SIM0000") b)).set
    "name" (addr.getD "name" "")).set "product" g.product

/-- What a daughterboard's memory holds at first. -/
def record (b slot : Nat) (dir : Direction) : DboardEeprom :=
  let serial := Device.boardSerial (addr.getD "serial" "SIM0000") b
  ⟨Device.dboardId dir, s!"{serial}{b}{String.singleton (Slot.letter slot)}", 1⟩

/-- What a label holds at first. -/
def value : Label → Property
  | name _ => .text g.product
  | board b => .address (memory g addr b)
  | daughter b slot dir => .dboard (record addr b slot dir)

/-- The type that a label has and keeps. -/
def type : Label → PropertyType
  | name _ => .text
  | board _ => .address
  | daughter .. => .dboard

theorem type_value (l : Label) : (l.value g addr).type = l.type := by
  cases l <;> rfl

def entry (l : Label) : String × Property := (l.path, l.value g addr)

/-- The labels of one slot. -/
def ofSlot (b slot : Nat) : List Label :=
  ([.rx, .tx].filter fun dir => slot < g.channels dir).map (daughter b slot)

/-- The labels of one board. -/
def ofBoard (b : Nat) : List Label :=
  name b :: board b ::
    (List.range (min (max g.rxChannels g.txChannels) Slot.limit)).flatMap (ofSlot g b)

/-- The labels of a radio. -/
def all : List Label := (List.range g.boards).flatMap (ofBoard g)

end

variable {α : Type} {g : Geometry α} {addr : Address}

theorem mem_ofSlot {b slot : Nat} {l : Label} :
    l ∈ ofSlot g b slot ↔ ∃ dir, slot < g.channels dir ∧ l = daughter b slot dir := by
  unfold ofSlot
  rw [List.mem_map]
  constructor
  · rintro ⟨dir, hdir, rfl⟩
    exact ⟨dir, of_decide_eq_true (List.mem_filter.1 hdir).2, rfl⟩
  · rintro ⟨dir, hdir, rfl⟩
    exact ⟨dir, List.mem_filter.2 ⟨by cases dir <;> simp, decide_eq_true hdir⟩, rfl⟩

/-- Every board has a name and a memory, and every slot of it a memory for each direction that has
the slot. -/
theorem mem_all (hg : g.Lettered) {l : Label} :
    l ∈ all g ↔
      (∃ b < g.boards, l = name b ∨ l = board b ∨
        ∃ slot dir, slot < g.channels dir ∧ l = daughter b slot dir) := by
  unfold all ofBoard
  simp only [List.mem_flatMap, List.mem_range, List.mem_cons, mem_ofSlot]
  refine exists_congr fun b => and_congr_right fun _ => or_congr_right (or_congr_right ?_)
  constructor
  · rintro ⟨slot, -, dir, hslot, rfl⟩
    exact ⟨slot, dir, hslot, rfl⟩
  · rintro ⟨slot, dir, hslot, rfl⟩
    refine ⟨slot, ?_, dir, hslot, rfl⟩
    have hle := hg dir
    have hmax : g.channels dir ≤ max g.rxChannels g.txChannels := by
      cases dir
      · exact le_max_left _ _
      · exact le_max_right _ _
    unfold Slot.limit
    omega

theorem lettered_of_mem_all (hg : g.Lettered) {l : Label} (hl : l ∈ all g) :
    l.Lettered := by
  obtain ⟨b, -, rfl | rfl | ⟨slot, dir, hslot, rfl⟩⟩ := (mem_all hg).1 hl
  · trivial
  · trivial
  · exact Nat.lt_of_lt_of_le hslot (hg dir)

/-- In any order, what the entries have at the path of a label is its value. -/
theorem find?_entries (hg : g.Lettered) {l : Label} (hl : l ∈ all g)
    {entries : List (String × Property)}
    (hentries : ∀ e, e ∈ entries ↔ e ∈ (all g).map (entry g addr)) :
    (entries.find? fun e => TreePath.normal e.1 = TreePath.normal l.path).map Prod.snd =
      some (l.value g addr) := by
  cases hfind : entries.find? fun e => TreePath.normal e.1 = TreePath.normal l.path with
  | none =>
    have hentry : entry g addr l ∈ entries := (hentries _).2 (List.mem_map_of_mem hl)
    have hnone := List.find?_eq_none.1 hfind _ hentry
    exact absurd (decide_eq_true rfl) hnone
  | some e =>
    obtain ⟨other, hother, rfl⟩ := List.mem_map.1 ((hentries e).1 (List.mem_of_find?_eq_some hfind))
    have hpath : TreePath.normal (entry g addr other).1 = TreePath.normal l.path := by
      simpa using List.find?_some hfind
    rw [normal_path_inj (lettered_of_mem_all hg hother) (lettered_of_mem_all hg hl) hpath]
    rfl

end Label

/-! ## The tree of a new radio -/

namespace Device

variable {α : Type} {g : Geometry α} {addr : Address} {d d' : Device α}

/-- What is put into the tree of a radio when it is opened. -/
def sown (g : Geometry α) (addr : Address) : List (String × Property) :=
  (Label.all g).map (Label.entry g addr)

theorem foldlM_eq_ok {β γ δ : Type} {f : β → γ → Except Fault β} {step : β → δ → β}
    {entries : γ → List δ} {xs : List γ}
    (h : ∀ t, ∀ x ∈ xs, f t x = .ok ((entries x).foldl step t)) (t : β) :
    xs.foldlM f t = .ok ((xs.flatMap entries).foldl step t) := by
  induction xs generalizing t with
  | nil => rfl
  | cons x rest ih =>
    obtain ⟨hx, hrest⟩ : f t x = .ok ((entries x).foldl step t) ∧ _ :=
      ⟨h t x List.mem_cons_self, fun t y hy => h t y (List.mem_cons_of_mem _ hy)⟩
    rw [List.foldlM_cons, hx, List.flatMap_cons, List.foldl_append]
    exact ih hrest _

theorem plantSlot_eq {b slot : Nat} (hslot : slot < 26) (t : PropertyTree) :
    plantSlot g b (boardSerial (addr.getD "serial" "SIM0000") b) t slot =
      .ok (((Label.ofSlot g b slot).map (Label.entry g addr)).foldl sow t) := by
  have hentry : ∀ dir, Label.entry g addr (.daughter b slot dir) =
      (dboardEepromPath b (String.singleton (Slot.letter slot)) dir.name,
        .dboard (Label.record addr b slot dir)) := by
    intro dir
    rw [← Label.path_daughter]
    rfl
  unfold plantSlot Label.ofSlot
  rw [Slot.name_eq hslot, List.map_map, List.foldl_map, List.foldl_filter]
  simp only [List.foldl_cons, List.foldl_nil, Function.comp_apply, decide_eq_true_eq, hentry]
  rfl

theorem plantBoard_eq (hg : g.Lettered) (b : Nat) (t : PropertyTree) :
    plantBoard g addr t b = .ok (((Label.ofBoard g b).map (Label.entry g addr)).foldl sow t) := by
  have hslots : ∀ t, ∀ slot ∈ List.range (min (max g.rxChannels g.txChannels) Slot.limit),
      plantSlot g b (boardSerial (addr.getD "serial" "SIM0000") b) t slot =
        .ok (((Label.ofSlot g b slot).map (Label.entry g addr)).foldl sow t) := by
    intro t slot hslot
    refine plantSlot_eq ?_ t
    have hrx : g.rxChannels ≤ 26 := hg .rx
    have htx : g.txChannels ≤ 26 := hg .tx
    have hlt := List.mem_range.1 hslot
    omega
  unfold plantBoard Label.ofBoard
  dsimp only
  rw [foldlM_eq_ok hslots, List.map_cons, List.map_cons, List.foldl_cons, List.foldl_cons,
    List.map_flatMap, Label.entry, Label.entry, Label.path_name, Label.path_board]
  rfl

variable [Scalar α]

/-- The tree of a radio that was just opened. -/
theorem tree_make {defaults : Geometry α} {args : Address}
    (hsize : Geometry.ofAddress defaults args = .ok g) (h : make addr g = .ok d) :
    d.tree = (sown g addr).foldl sow PropertyTree.empty := by
  have hg : g.Lettered := Geometry.lettered_of_ofAddress hsize
  obtain ⟨-, -, h⟩ := bind_eq_ok_iff.1 h
  obtain ⟨tree, htree, h⟩ := bind_eq_ok_iff.1 h
  obtain ⟨boards, -, h⟩ := bind_eq_ok_iff.1 h
  cases pure_eq_ok_iff.1 h
  rw [foldlM_eq_ok fun t b _ => plantBoard_eq hg b t] at htree
  cases htree
  rw [sown, Label.all, List.map_flatMap]

/-- At the path of a label is its value. -/
theorem value_make {defaults : Geometry α} {args : Address}
    (hsize : Geometry.ofAddress defaults args = .ok g) (h : make addr g = .ok d) {l : Label}
    (hl : l ∈ Label.all g) : d.tree.find? (TreePath.normal l.path) = some (l.value g addr) := by
  have hg : g.Lettered := Geometry.lettered_of_ofAddress hsize
  rw [tree_make hsize h, find?_foldl_sow]
  exact Label.find?_entries hg hl fun e => Iff.rfl

/-- What is in the tree of a radio that was just opened is what was put there last. -/
theorem find?_make {defaults : Geometry α} {args : Address}
    (hsize : Geometry.ofAddress defaults args = .ok g) (h : make addr g = .ok d) (p : String) :
    d.tree.find? (TreePath.normal p) = lastAt p (sown g addr) := by
  have hg : g.Lettered := Geometry.lettered_of_ofAddress hsize
  by_cases hlabel : ∃ l ∈ Label.all g, TreePath.normal l.path = TreePath.normal p
  · -- all that was put at the path is the value of one label
    obtain ⟨l, hl, hp⟩ := hlabel
    unfold lastAt
    rw [← hp, value_make hsize h hl]
    exact (Label.find?_entries hg hl fun e => List.mem_reverse).symm
  · have hnot : ∀ e ∈ sown g addr, ¬ TreePath.normal e.1 = TreePath.normal p := by
      rintro e he heq
      obtain ⟨l, hl, rfl⟩ := List.mem_map.1 he
      exact hlabel ⟨l, hl, heq⟩
    unfold lastAt
    rw [tree_make hsize h, find?_foldl_sow,
      List.find?_eq_none.2 fun e he => by simpa using hnot e he,
      List.find?_eq_none.2 fun e he => by simpa using hnot e (List.mem_reverse.1 he)]
    rfl

end Device

end SoftRadio
