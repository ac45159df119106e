import SoftRadio.Proofs.Device.Labels

/-!
# What is known of a channel's hardware

Callers write to the property tree as they like.  Still every channel there is has its
information, since the labels that a radio was opened with stay and keep their types; and the
serials in the information are those that were stored last.

* `journal`: the writes that were accepted, in order; `find?_foldl_after` reads the tree off it.
* `Labelled`: every label is there with a value of its type; every call keeps it.
* `info_after_happenings`: the information about the channels, after any calls.
-/

namespace SoftRadio

open PropertyTree

/-- What a call writes to the property tree if it is accepted: a path and a value. -/
def Call.writes {α : Type} : Call α → List (String × Property)
  | .createProperty path v | .setProperty path v => [(path, v)]
  | _ => []

namespace Device

variable {α : Type} [Scalar α] {g : Geometry α} {addr : Address} {d d' : Device α}

/-! ## Writes -/

/-- What a happening writes to the tree: what is refused writes nothing. -/
def written (d : Device α) : Happening α → List (String × Property)
  | .call looks call =>
    match d.perform looks call with
    | .ok _ => call.writes
    | .error _ => []
  | _ => []

/-- The writes that are accepted, in order. -/
def journal (d : Device α) : List (Happening α) → List (String × Property)
  | [] => []
  | h :: rest => d.written h ++ (d.after h).journal rest

omit [Scalar α] in
/-- A write that was accepted is found at its path. -/
theorem find?_of_write {t t' : PropertyTree} {path p : String} {v : Property}
    (h : ∀ p, t'.find? p = if p = TreePath.normal path then some v else t.find? p) :
    t'.find? (TreePath.normal p) = (lastAt p [(path, v)]).or (t.find? (TreePath.normal p)) := by
  rw [h]
  by_cases hp : TreePath.normal p = TreePath.normal path
  · simp [lastAt, hp]
  · simp [lastAt, hp, Ne.symm hp]

theorem tree_of_change {call : Call α} (h : Change d call d') (hcall : call.writes = []) :
    d'.tree = d.tree := by
  cases h with
  | created | stored => cases hcall
  | _ => rfl

theorem find?_of_perform {looks : Nat → α} {call : Call α} {answer : Answer α}
    (h : d.perform looks call = .ok (answer, d')) (p : String) :
    d'.tree.find? (TreePath.normal p) =
      (lastAt p call.writes).or (d.tree.find? (TreePath.normal p)) := by
  cases call with
  | createProperty path v =>
    obtain ⟨tree, htree, rfl⟩ := map_eq_ok_iff.1 (eq_ok_of_settle h)
    exact find?_of_write (find?_of_create htree).2
  | setProperty path v =>
    obtain ⟨tree, htree, rfl⟩ := map_eq_ok_iff.1 (eq_ok_of_settle h)
    exact find?_of_write (find?_of_set htree).2
  | _ =>
    rw [tree_of_change (perform_change h) rfl]
    exact Option.none_or.symm

theorem find?_after (d : Device α) (h : Happening α) (p : String) :
    (d.after h).tree.find? (TreePath.normal p) =
      (lastAt p (d.written h)).or (d.tree.find? (TreePath.normal p)) := by
  cases h with
  | round => exact Option.none_or.symm
  | issueOn =>
    rw [after_issueOn]
    exact Option.none_or.symm
  | call looks call =>
    unfold after written
    dsimp only
    cases hp : d.perform looks call with
    | error f => exact Option.none_or.symm
    | ok result => exact find?_of_perform hp p

/-- The tree holds what was written last, and besides what it held at first. -/
theorem find?_foldl_after (d : Device α) (happenings : List (Happening α)) (p : String) :
    (happenings.foldl after d).tree.find? (TreePath.normal p) =
      (lastAt p (d.journal happenings)).or (d.tree.find? (TreePath.normal p)) := by
  induction happenings generalizing d with
  | nil => exact Option.none_or.symm
  | cons h rest ih =>
    rw [List.foldl_cons, ih, find?_after, journal, lastAt_append, Option.or_assoc]

/-! ## Labels stay -/

/-- Every label of a radio of this size is there, with a value of its type. -/
structure Labelled (g : Geometry α) (d : Device α) : Prop where
  geometry : d.geometry = g
  boards : d.boards.length = g.boards
  labels : ∀ l ∈ Label.all g,
    ∃ v, d.tree.find? (TreePath.normal l.path) = some v ∧ v.type = l.type

theorem labelled_make {defaults : Geometry α} {args : Address}
    (hsize : Geometry.ofAddress defaults args = .ok g) (h : make addr g = .ok d) :
    d.Labelled g := by
  obtain ⟨hgeometry, hboards⟩ := size_of_make h
  exact ⟨hgeometry, hboards, fun l hl => ⟨_, value_make hsize h hl, Label.type_value g addr l⟩⟩

omit [Scalar α] in
/-- A write that does not change the type of what is there keeps all labels. -/
theorem Labelled.of_write (hd : d.Labelled g) {tree : PropertyTree} {path : String} {v : Property}
    (hfind : ∀ p, tree.find? p = if p = TreePath.normal path then some v else d.tree.find? p)
    (htype : ∀ w, d.tree.find? (TreePath.normal path) = some w → w.type = v.type) :
    ({ d with tree := tree } : Device α).Labelled g := by
  refine ⟨hd.geometry, hd.boards, fun l hl => ?_⟩
  obtain ⟨w, hw, hlabel⟩ := hd.labels l hl
  by_cases hp : TreePath.normal l.path = TreePath.normal path
  · refine ⟨v, by rw [hfind, if_pos hp], ?_⟩
    rw [← htype w (hp ▸ hw), hlabel]
  · exact ⟨w, by rw [hfind, if_neg hp, hw], hlabel⟩

/-- Labels can be written to, but neither taken away nor given another type. -/
theorem Labelled.of_change (hd : d.Labelled g) {call : Call α} (h : Change d call d') :
    d'.Labelled g := by
  cases h with
  | nothing => exact hd
  | rate | tuned | frontend | office => exact ⟨hd.geometry, hd.boards, hd.labels⟩
  | board | pins | clockRate | spec =>
    exact ⟨hd.geometry, (List.length_set).trans hd.boards, hd.labels⟩
  | clocks =>
    refine ⟨hd.geometry, ?_, hd.labels⟩
    show (List.map _ d.boards.zipIdx).length = g.boards
    rw [List.length_map, List.length_zipIdx, hd.boards]
  | created h =>
    obtain ⟨hnone, hfind⟩ := find?_of_create h
    refine hd.of_write hfind fun w hw => ?_
    rw [hnone] at hw
    cases hw
  | stored h =>
    obtain ⟨⟨w, hw, htype⟩, hfind⟩ := find?_of_set h
    refine hd.of_write hfind fun w' hw' => ?_
    rw [hw] at hw'
    cases hw'
    exact htype

/-! ## Information -/

omit [Scalar α] in
theorem Labelled.boardName (hd : d.Labelled g) (hg : g.Lettered) {b : Nat}
    (hb : b < g.boards) : ∃ name, d.boardName b = .ok name := by
  have hmem : Label.name b ∈ Label.all g := (Label.mem_all hg).2 ⟨b, hb, Or.inl rfl⟩
  obtain ⟨v, hv, htype⟩ := hd.labels _ hmem
  cases v <;> cases htype
  next name =>
  have hboard : d.board b = .ok _ := board_eq_ok_iff.2 (List.getElem?_eq_getElem (hd.boards ▸ hb))
  rw [Label.path_name] at hv
  exact ⟨name, bind_eq_ok_iff.2 ⟨_, hboard, getText_of_find? hv⟩⟩

omit [Scalar α] in
theorem Labelled.memory (hd : d.Labelled g) (hg : g.Lettered) {b : Nat}
    (hb : b < g.boards) :
    ∃ memory, d.tree.find? (TreePath.normal (mboardEepromPath b)) = some (.address memory) := by
  have hmem : Label.board b ∈ Label.all g := (Label.mem_all hg).2 ⟨b, hb, Or.inr (Or.inl rfl)⟩
  obtain ⟨v, hv, htype⟩ := hd.labels _ hmem
  cases v <;> cases htype
  exact ⟨_, Label.path_board b ▸ hv⟩

omit [Scalar α] in
theorem Labelled.record (hd : d.Labelled g) (hg : g.Lettered) {b slot : Nat}
    {dir : Direction} {name : String} (hb : b < g.boards) (hslot : slot < g.channels dir)
    (hname : Slot.name slot = .ok name) :
    ∃ record, d.tree.find? (TreePath.normal (dboardEepromPath b name dir.name)) =
      some (.dboard record) := by
  have hmem : Label.daughter b slot dir ∈ Label.all g :=
    (Label.mem_all hg).2 ⟨b, hb, Or.inr (Or.inr ⟨slot, dir, hslot, rfl⟩)⟩
  obtain ⟨v, hv, htype⟩ := hd.labels _ hmem
  cases v <;> cases htype
  rw [Slot.name_eq (Nat.lt_of_lt_of_le hslot (hg dir))] at hname
  cases hname
  exact ⟨_, Label.path_daughter b slot dir ▸ hv⟩

omit [Scalar α] in
theorem subdevName_of_locate {dir : Direction} {chan : Nat} {place : Location} {slot : String}
    (hplace : d.locate dir chan = .ok place) (hname : Slot.name place.slot = .ok slot) :
    d.subdevName dir chan = .ok s!"SIM-{dir.label} {slot}" :=
  bind_eq_ok_iff.2 ⟨place, hplace, bind_eq_ok_iff.2 ⟨slot, hname, rfl⟩⟩

/-- The serials in the information about a channel are those in the memories of the board and of
the slot where the channel is, as `find` finds them at their paths. -/
def SerialsFrom (d : Device α) (find : String → Option Property) (dir : Direction) (chan : Nat)
    (info : ChannelInfo) : Prop :=
  ∃ place slot memory record, d.locate dir chan = .ok place ∧ Slot.name place.slot = .ok slot ∧
    find (mboardEepromPath place.board) = some (.address memory) ∧
    info.boardSerial = memory.getD "serial" "" ∧
    find (dboardEepromPath place.board slot dir.name) = some (.dboard record) ∧
    info.frontendSerial = record.serial

omit [Scalar α] in
theorem Labelled.info_of_lt (hd : d.Labelled g) (hrouted : d.Routed)
    (hg : g.Lettered) {dir : Direction} {chan : Nat}
    (h : chan < d.channelCount dir) :
    ∃ info, d.info dir chan = .ok info ∧
      d.SerialsFrom (fun path => d.tree.find? (TreePath.normal path)) dir chan info := by
  obtain ⟨place, fe, clock, slot, hplace, hchannel, hboard, hslot, hname⟩ :=
    hrouted.channel_of_lt h
  rw [hd.boards] at hboard
  rw [hd.geometry] at hslot
  obtain ⟨memory, hmemory⟩ := hd.memory hg hboard
  obtain ⟨record, hrecord⟩ := hd.record hg hboard hslot hname
  obtain ⟨boardName, hboardName⟩ := hd.boardName hg hboard
  have hb : d.board place.board = .ok _ :=
    board_eq_ok_iff.2 (List.getElem?_eq_getElem (hd.boards ▸ hboard))
  have hsubdev := subdevName_of_locate hplace hname
  have hinfo : d.info dir chan = .ok _ :=
    bind_eq_ok_iff.2 ⟨_, hchannel, bind_eq_ok_iff.2 ⟨_, getAddress_of_find? hmemory,
      bind_eq_ok_iff.2 ⟨_, hname, bind_eq_ok_iff.2 ⟨_, getDboard_of_find? hrecord,
        bind_eq_ok_iff.2 ⟨_, hb, bind_eq_ok_iff.2 ⟨_, hboardName,
          bind_eq_ok_iff.2 ⟨_, hsubdev, rfl⟩⟩⟩⟩⟩⟩⟩
  exact ⟨_, hinfo, place, slot, memory, record, hplace, hname, hmemory, rfl, hrecord, rfl⟩

omit [Scalar α] in
theorem Routed.channelLines_of_lt (hd : d.Routed) {dir : Direction} {chan : Nat}
    (h : chan < d.channelCount dir) : ∃ lines, d.channelLines dir chan = .ok lines := by
  obtain ⟨place, fe, clock, slot, hplace, -, -, -, hname⟩ := hd.channel_of_lt h
  have hsubdev := subdevName_of_locate hplace hname
  exact ⟨_, bind_eq_ok_iff.2 ⟨_, hplace, bind_eq_ok_iff.2 ⟨_, hname,
    bind_eq_ok_iff.2 ⟨_, hsubdev, rfl⟩⟩⟩⟩

omit [Scalar α] in
/-- The summary goes over all boards and channels, none of which lacks anything. -/
theorem Labelled.exists_summary (hd : d.Labelled g) (hrouted : d.Routed)
    (hg : g.Lettered) : ∃ text, d.summary = .ok text := by
  have hboards : ∀ i ∈ List.range d.boards.length, ∃ line, (do
      let name ← d.boardName i
      return s!"  Mboard {i}: {name}\n") = (.ok line : Except Fault String) := by
    intro i hi
    obtain ⟨name, hname⟩ := hd.boardName hg (hd.boards ▸ List.mem_range.1 hi)
    exact ⟨_, bind_eq_ok_iff.2 ⟨name, hname, rfl⟩⟩
  have hlines : ∀ dir, ∀ chan ∈ List.range (d.channelCount dir),
      ∃ lines, d.channelLines dir chan = .ok lines := fun dir chan hchan =>
    hrouted.channelLines_of_lt (List.mem_range.1 hchan)
  obtain ⟨boards, hboards⟩ := exists_mapM_eq_ok hboards
  obtain ⟨rx, hrx⟩ := exists_mapM_eq_ok (hlines .rx)
  obtain ⟨tx, htx⟩ := exists_mapM_eq_ok (hlines .tx)
  exact ⟨_, bind_eq_ok_iff.2 ⟨_, hboards, bind_eq_ok_iff.2 ⟨_, hrx,
    bind_eq_ok_iff.2 ⟨_, htx, rfl⟩⟩⟩⟩

/-- After any calls, accepted or refused, the information about a channel is to be had just if
there is the channel, and the summary always; and the serials are those in the memories that were
stored last for its board and for the slot where it is now, at the opening or later. -/
theorem info_after_happenings {defaults : Geometry α} {args : Address} {opened : Device α}
    (hsize : Geometry.ofAddress defaults args = .ok g) (hmake : make addr g = .ok opened)
    (happenings : List (Happening α)) :
    let d := happenings.foldl after opened
    let writes := sown g addr ++ opened.journal happenings
    (∀ dir chan, (∃ info, d.info dir chan = .ok info) ↔ chan < d.channelCount dir) ∧
      (∃ text, d.summary = .ok text) ∧
      ∀ dir chan info, d.info dir chan = .ok info →
        d.SerialsFrom (fun path => lastAt path writes) dir chan info := by
  intro d writes
  have hg : g.Lettered := Geometry.lettered_of_ofAddress hsize
  have hrouted : d.Routed := routed_foldl_after (routed_make hsize hmake) happenings
  have hlabelled : d.Labelled g :=
    foldl_after_of_change (fun hd h => hd.of_change h) (labelled_make hsize hmake) happenings
  have hlast : (fun path => d.tree.find? (TreePath.normal path)) =
      fun path => lastAt path writes := by
    funext path
    rw [find?_foldl_after, find?_make hsize hmake, ← lastAt_append]
  have hlt : ∀ {dir chan info}, d.info dir chan = .ok info → chan < d.channelCount dir := by
    intro dir chan info hinfo
    obtain ⟨_, hchannel, -⟩ := bind_eq_ok_iff.1 hinfo
    obtain ⟨_, hplace, -⟩ := bind_eq_ok_iff.1 hchannel
    exact lt_of_locate hplace
  refine ⟨fun dir chan => ⟨fun ⟨info, hinfo⟩ => hlt hinfo, fun h => ?_⟩,
    hlabelled.exists_summary hrouted hg, fun dir chan info hinfo => ?_⟩
  · obtain ⟨info, hinfo, -⟩ := hlabelled.info_of_lt hrouted hg h
    exact ⟨info, hinfo⟩
  · obtain ⟨info', hinfo', hserials⟩ := hlabelled.info_of_lt hrouted hg (hlt hinfo)
    rw [hinfo] at hinfo'
    cases hinfo'
    rw [hlast] at hserials
    exact hserials

/-- The memories of the board and of slot `B` are stored anew, the first of them once more with a
text, which is refused; and slot `B` is left as the only one. -/
def relabelled : List (Happening ℚ) :=
  [.call (fun _ => 0) (.setProperty (mboardEepromPath 0) (.address ⟨[("serial", "M7")]⟩)),
    .call (fun _ => 0) (.setProperty "mboards//0/dboards/B/rx_eeprom/" (.dboard ⟨7, "D7", 2⟩)),
    .call (fun _ => 0) (.setProperty (mboardEepromPath 0) (.text "M8")),
    .call (fun _ => 0) (.setSubdevSpec .rx ⟨[⟨"B", "0"⟩]⟩ 0)]

/-- The first channel shows the serials that were accepted. -/
theorem info_relabelled : ∃ (g : Geometry ℚ) (opened : Device ℚ) (info : ChannelInfo),
    Geometry.ofAddress Geometry.standard Address.empty = .ok g ∧
      make Address.empty g = .ok opened ∧
      (relabelled.foldl after opened).info .rx 0 = .ok info ∧
      info.boardSerial = "M7" ∧ info.frontendSerial = "D7" ∧
      (relabelled.foldl after opened).SerialsFrom
        (fun path => lastAt path (sown g Address.empty ++ opened.journal relabelled)) .rx 0
        info := by
  obtain ⟨g, opened, hsize, hmake, hserials⟩ := exists_opened Geometry.standard Address.empty
    Address.empty
    (fun opened : Device ℚ => ((relabelled.foldl after opened).info .rx 0).toOption.map
      (fun info => (info.boardSerial, info.frontendSerial)) = some ("M7", "D7"))
    (by decide +kernel)
  obtain ⟨-, -, hlast⟩ := info_after_happenings hsize hmake relabelled
  cases hinfo : (relabelled.foldl after opened).info .rx 0 with
  | error f =>
    rw [hinfo] at hserials
    cases hserials
  | ok info =>
    rw [hinfo] at hserials
    have hpair : (info.boardSerial, info.frontendSerial) = ("M7", "D7") :=
      Option.some.inj (of_decide_eq_true hserials)
    exact ⟨g, opened, info, hsize, hmake, hinfo, congrArg Prod.fst hpair, congrArg Prod.snd hpair,
      hlast .rx 0 info hinfo⟩

end Device

end SoftRadio
