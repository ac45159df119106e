import SoftRadio.Flat.Interface
import SoftRadio.Proofs.Exact
import SoftRadio.Proofs.Flat.Steps
import SoftRadio.Proofs.Session.Failure

/-!
# What a call of the flat interface leaves with its caller

* `Boundary`: what is asked of the steps of a function: they fill its places if they succeed, leave
  nothing behind if they fail, and refuse a party that is not there before they look at anything
  else.
* `boundary_of_party`: a row of steps that turns to a party, and writes when nothing can fail any
  more.
* `boundary_steps`: every function is so.
* `call_keeps_boundary`: the same of calls, told by their status.
-/

namespace SoftRadio.Flat

open Session

variable {α : Type} {β : Type}

theorem status_ne_none (e : Error) : e.status ≠ .none := by
  unfold Error.status
  cases e.kind <;> decide

/-! ## Places -/

theorem given_eq_ok_iff {a : Arguments α} {p : Place} {what : String} :
    a.given p what = .ok () ↔ p ∉ a.missing := by
  unfold Arguments.given
  rw [List.contains_eq_mem]
  by_cases h : p ∈ a.missing <;> simp [h, refuse]

/-- What is written can be found at its place. -/
theorem isSome_at?_iff {w : Writes α} {p : Place} : (w.at? p).isSome ↔ p ∈ w.map Prod.fst := by
  unfold Writes.at?
  rw [Option.isSome_map, List.find?_isSome, List.mem_map]
  simp only [List.mem_reverse, decide_eq_true_eq]

/-- Every place was lent, unless there is no room there anyway. -/
def Arguments.Lends (a : Arguments α) (places : List Place) : Prop :=
  ∀ p ∈ places, p ∈ a.missing → (p = .text ∧ a.length = 0) ∨ (p = .ranges ∧ a.capacity = 0)

theorem lends_cons_of_given {a : Arguments α} {p : Place} {what : String} {places : List Place}
    (h : a.given p what = .ok ()) (hrest : a.Lends places) : a.Lends (p :: places) := by
  intro q hq hm
  rcases List.mem_cons.1 hq with rfl | hq
  · exact absurd hm (given_eq_ok_iff.1 h)
  · exact hrest q hq hm

theorem Output.checkText_eq (a : Arguments α) :
    checkText a =
      if .text ∈ a.missing ∧ a.length ≠ 0 then refuse .missingTextBuffer else .ok () := by
  unfold checkText
  simp only [List.contains_eq_mem, Bool.and_eq_true, decide_eq_true_eq, bne_iff_ne]

theorem lends_nil {a : Arguments α} : a.Lends [] := nofun

theorem lends_cons_of_checkText {a : Arguments α} {places : List Place}
    (h : Output.checkText a = .ok ()) (hrest : a.Lends places) : a.Lends (.text :: places) := by
  intro q hq hm
  rcases List.mem_cons.1 hq with rfl | hq
  · refine Or.inl ⟨rfl, ?_⟩
    by_contra hlength
    rw [Output.checkText_eq, if_pos ⟨hm, hlength⟩] at h
    cases h
  · exact hrest q hq hm

/-- The check of a shape makes sure of its places. -/
theorem lends_of_check {o : Output} {a : Arguments α} (h : o.check a = .ok ()) :
    a.Lends o.places := by
  cases o with
  | nothing => exact lends_nil
  | value => exact lends_cons_of_given h lends_nil
  | text => exact lends_cons_of_checkText h lends_nil
  | texts =>
    obtain ⟨⟨⟩, htext, hcount⟩ := bind_eq_ok_iff.1 h
    exact lends_cons_of_checkText htext (lends_cons_of_given hcount lends_nil)
  | ranges =>
    obtain ⟨⟨⟩, hcount, hroom⟩ := bind_eq_ok_iff.1 h
    intro q hq hm
    rcases List.mem_cons.1 hq with rfl | hq
    · refine Or.inr ⟨rfl, ?_⟩
      by_contra hl
      simp [List.contains_eq_mem, hm, hl, refuse] at hroom
    · exact lends_cons_of_given hcount lends_nil q hq hm
  | time =>
    obtain ⟨⟨⟩, hwhole, hfraction⟩ := bind_eq_ok_iff.1 h
    exact lends_cons_of_given hwhole (lends_cons_of_given hfraction lends_nil)

namespace Function

open Steps Desk

/-- The party that a function looks up before anything else, if its caller names one. -/
def first? (a : Arguments α) : Function α → Option Party
  | .lastError | .find | .makeDevice | .makeStream _ => none
  | .freeDevice => if .handle ∈ a.missing then none else some (.device a.handle)
  | .freeStream dir => if .handle ∈ a.missing then none else some (.stream dir a.handle)
  | .deviceLastError | .device _ | .openStream _ => some (.device a.handle)
  | .streamLastError dir | .query dir .. => some (.stream dir a.handle)
  | .recv | .issue => some (.stream .rx a.handle)
  | .send | .nextEvent => some (.stream .tx a.handle)

/-- The places that a function spares although it succeeds: a text that has no room, and the
report of a transmit stream where there is none. -/
def Spares (a : Arguments α) (w : Writes α) : Function α → Place → Prop
  | .nextEvent, .metadata => w.at? .valid = some (.flag false)
  | _, p => a.leavesOut p

/-- All places are written but those that are spared. -/
def Fills (f : Function α) (a : Arguments α) (w : Writes α) : Prop :=
  ∀ p, (w.at? p).isSome ↔ p ∈ f.places ∧ ¬f.Spares a w p

/-- What is asked of the steps of a function. -/
structure Boundary (f : Function α) (a : Arguments α) (x : Steps (Desk α) Unit) : Prop where
  answered : Leaves (fun w => f.Fills a w ∧ a.Lends f.places) x
  clean : Clean x
  refused : ∀ p desk, f.first? a = some p → desk.station.session.has p = false → Refuses x desk

theorem fills_of_places {f : Function α} {a : Arguments α} {w : Writes α}
    (hw : w.map Prod.fst = f.places.filter fun p => !a.leavesOut p)
    (hspares : ∀ p, f.Spares a w p = a.leavesOut p) : f.Fills a w := by
  intro p
  rw [isSome_at?_iff, hw, List.mem_filter, hspares]
  simp

theorem leavesOut_eq_false {a : Arguments α} {p : Place} (h : p ≠ .text) :
    a.leavesOut p = false := by
  simp [Arguments.leavesOut, h]

variable {a : Arguments α}

/-- A row that turns to a party first, and leaves nothing behind once the party has answered. -/
theorem boundary_of_party {f : Function α} {x : Party} (hfirst : f.first? a = some x)
    {step : Steps (Desk α) β} {k : β → Steps (Desk α) Unit} (hquiet : Quiet step)
    (hgone : ∀ desk, desk.station.session.has x = false → Refuses step desk)
    (hclean : ∀ v, Clean (k v)) {Q : β → Prop} (hreads : Reads Q step)
    (hleaves : ∀ v, Q v → Leaves (fun w => f.Fills a w ∧ a.Lends f.places) (k v)) :
    Boundary f a (step >>= k) where
  answered := hreads.leaves_bind hleaves
  clean := hquiet.clean_bind hclean
  refused y desk hy hy' := by
    rw [hfirst] at hy
    cases hy
    exact (hgone desk hy').bind

/-! ## Functions that copy a text out -/

theorem run_copyOut (a : Arguments α) (text : String) (desk : Desk α) :
    copyOut a text desk =
      if .text ∈ a.missing ∧ a.length ≠ 0 then (refuse .missingTextBuffer, desk)
      else (.ok (), { desk with writes := desk.writes ++ Output.writeText a text }) := by
  unfold copyOut
  rw [Output.checkText_eq]
  split
  · exact bind_of_error rfl
  · exact (bind_of_ok rfl).trans (run_writeAll _ desk)

theorem clean_copyOut (text : String) : Clean (copyOut a text) :=
  (quiet_check _).clean_bind fun _ => (sure_writeAll _).clean

/-- A copied text fills its place, as an answer that is a text does. -/
theorem leaves_copyOut {f : Function α} (hplaces : f.places = [.text])
    (hspares : ∀ w p, f.Spares a w p = a.leavesOut p) (text : String) :
    Leaves (fun w => f.Fills a w ∧ a.Lends f.places) (copyOut a text) := by
  refine (reads_check _).leaves_bind fun _ hcheck => leaves_writeAll ⟨?_, ?_⟩
  · refine fills_of_places ?_ (hspares _)
    rw [hplaces]
    exact Output.places_writeText a text
  · rw [hplaces]
    exact lends_of_check (o := .text) hcheck

theorem boundary_lastError (text : String) : Boundary .lastError a (copyOut a text) where
  answered := leaves_copyOut rfl (fun _ _ => rfl) text
  clean := clean_copyOut text
  refused := nofun

/-- The text of a party, which is looked up first. -/
theorem boundary_partyText {f : Function α} (hplaces : f.places = [.text])
    (hspares : ∀ w p, f.Spares a w p = a.leavesOut p) {x : Party} (hfirst : f.first? a = some x) :
    Boundary f a (runPartyText a fun st => st.session.lastError x) := by
  refine boundary_of_party hfirst (quiet_ask _) (fun desk hgone => ?_) clean_copyOut (reads_ask _)
    fun text _ => leaves_copyOut hplaces hspares text
  obtain ⟨e, hstatus, he, -⟩ := exists_lastError_of_not_has hgone
  exact refuses_ask he hstatus

/-! ## Functions that make and free -/

/-- A function with a pointer to a handle, which it writes last. -/
theorem leaves_handle {f : Function α} (hplaces : f.places = [.handle])
    (hspares : ∀ w p, f.Spares a w p = a.leavesOut p) {what : String}
    (hgiven : a.given .handle what = .ok ()) (handle : Nat) :
    Leaves (fun w => f.Fills a w ∧ a.Lends f.places) (write .handle (.count handle)) := by
  refine leaves_write ⟨fills_of_places ?_ (hspares _), ?_⟩
  · rw [hplaces]
    simp [leavesOut_eq_false]
  · rw [hplaces]
    exact lends_cons_of_given hgiven lends_nil

/-- Who is named by a pointer that is there. -/
theorem named_eq {p : Place} {what : String} {x y : Party}
    (hx : (if p ∈ a.missing then none else some x) = some y) :
    a.given p what = .ok () ∧ x = y := by
  split at hx
  · cases hx
  · rename_i hlent
    exact ⟨given_eq_ok_iff.2 hlent, Option.some.inj hx⟩

theorem boundary_makeStream (dir : Direction) :
    Boundary (.makeStream dir) a (runMakeStream dir a) where
  answered :=
    (reads_check _).leaves_bind fun _ hgiven => (reads_onStation _).leaves_bind fun handle _ =>
      leaves_handle rfl (fun _ _ => rfl) hgiven handle
  clean := by
    refine (quiet_check _).clean_bind fun _ => Sure.clean (.bind ?_ fun _ => sure_write _ _)
    exact fun desk => ⟨_, _, rfl⟩
  refused := nofun

theorem boundary_freeStream (dir : Direction) :
    Boundary (.freeStream dir) a (runFreeStream dir a) where
  answered :=
    (reads_check _).leaves_bind fun _ hgiven => (reads_forward _).leaves_bind fun _ _ =>
      leaves_handle rfl (fun _ _ => rfl) hgiven 0
  clean :=
    (quiet_check _).clean_bind fun _ =>
      (quiet_forward fun st => nothingNew_freeStream st.session dir a.handle).clean_bind fun _ =>
        (sure_write _ _).clean
  refused x desk hx hgone := by
    obtain ⟨hgiven, rfl⟩ := named_eq hx
    have hfreed := congrArg Prod.fst (freeStream_of_not_has hgone)
    exact refuses_check_bind hgiven (Refuses.bind (refuses_forward hfreed rfl))

theorem session_freeDevice (st : Station α) (index : Nat) :
    (st.freeDevice index).2.session = (st.session.freeDevice index).2 := by
  unfold Station.freeDevice
  split
  case h_1 hfreed | h_2 hfreed => rw [hfreed]

/-- A device that crashes in its end is gone already, but its handle was not touched yet. -/
theorem boundary_freeDevice : Boundary .freeDevice a (runFree a) where
  answered :=
    (reads_check _).leaves_bind fun _ hgiven => (reads_onStation _).leaves_bind fun _ _ =>
      leaves_handle rfl (fun _ _ => rfl) hgiven 0
  clean := by
    refine (quiet_check _).clean_bind fun _ =>
      (quiet_onStation fun st => ?_).clean_bind fun _ => (sure_write _ _).clean
    rw [session_freeDevice]
    exact nothingNew_freeDevice st.session a.handle
  refused x desk hx hgone := by
    obtain ⟨hgiven, rfl⟩ := named_eq hx
    have hfreed : (desk.station.freeDevice a.handle).1 = refuse (.noDevice a.handle) := by
      unfold Station.freeDevice
      rw [freeDevice_of_not_has hgone]
    exact refuses_check_bind hgiven (Refuses.bind (refuses_onStation hfreed rfl))

/-! ## Calls on streams -/

/-- The step is a call on the stream behind a handle, and what the call returns has a property. -/
def CallsStream (dir : Direction) (handle : Nat) (Q : β → Prop) (step : Steps (Desk α) β) : Prop :=
  ∀ desk, ∃ (ω : Type) (g : Opened α → StreamOf α dir →
      (Except Fault β × ω) × Opened α × StreamOf α dir),
    let run := desk.station.session.streamRun dir handle g
    (step desk).1 = raise run.1.1 ∧ (step desk).2.station.session = run.2 ∧
      (step desk).2.writes = desk.writes ∧ ∀ o stream, Yields Q (g o stream).1.1

/-- Such a call makes nothing, and looks its handle up first. -/
theorem boundary_of_callsStream {f : Function α} {dir : Direction}
    (hfirst : f.first? a = some (.stream dir a.handle)) {step : Steps (Desk α) β}
    {k : β → Steps (Desk α) Unit} {Q : β → Prop}
    (hstep : CallsStream dir a.handle Q step) (hclean : ∀ v, Clean (k v))
    (hleaves : ∀ v, Q v → Leaves (fun w => f.Fills a w ∧ a.Lends f.places) (k v)) :
    Boundary f a (step >>= k) := by
  refine boundary_of_party hfirst (fun desk => ?_) (fun desk hgone => ?_) hclean ⟨?_, ?_⟩ hleaves
  · obtain ⟨ω, g, -, hsession, hwrites, -⟩ := hstep desk
    refine ⟨hwrites, ?_⟩
    rw [hsession]
    exact nothingNew_streamRun desk.station.session dir a.handle g
  · obtain ⟨ω, g, hresult, -⟩ := hstep desk
    rw [streamRun_of_not_has hgone] at hresult
    exact ⟨.noStreamer dir a.handle, _, Prod.ext hresult rfl, rfl⟩
  · intro desk
    obtain ⟨ω, g, -, -, hwrites, -⟩ := hstep desk
    exact hwrites
  · intro desk v desk' h
    obtain ⟨ω, g, hresult, -, -, hQ⟩ := hstep desk
    rw [h] at hresult
    obtain ⟨o, stream, hcall⟩ := exists_of_streamRun_eq_ok (raise_eq_ok_iff.1 hresult.symm)
    exact hQ o stream v hcall

theorem boundary_query (dir : Direction) (q : StreamQuery) (place : String) :
    Boundary (.query dir q place) a (runQuery dir q place a) := by
  refine boundary_of_callsStream rfl (Q := fun _ => a.given .value place = .ok ())
    (fun desk => ?_) (fun _ => (sure_write _ _).clean) fun n hgiven => leaves_write ?_
  · dsimp only [forward, onStation, Station.askStream, streamCall]
    refine ⟨_, _, rfl, rfl, rfl, fun o stream n h => ?_⟩
    obtain ⟨⟨⟩, hgiven, -⟩ := bind_eq_ok_iff.1 h
    exact hgiven
  · exact ⟨fills_of_places (by simp [places, leavesOut_eq_false]) fun _ => rfl,
      lends_cons_of_given hgiven lends_nil⟩

/-! ## Finding and opening devices -/

/-- The arguments of a stream are read when the device is there, and may be recorded with it. -/
theorem quiet_openArgs : Quiet (openArgs a) := by
  refine (quiet_ask _).bind fun _ => quiet_forward fun st => ?_
  cases guardedResult a.readStreamArgs with
  | ok args => exact .refl st.session
  | error e => exact nothingNew_modifyDevice st.session a.handle _

theorem silent_openArgs : Reads (fun _ => True) (openArgs a) where
  silent desk := (quiet_openArgs desk).writes
  gives _ _ _ _ := trivial

variable [Scalar α]

theorem boundary_find : Boundary .find a (runFind a) where
  answered := by
    refine (reads_check _).leaves_bind fun _ _ => (reads_check _).leaves_bind fun _ hcheck =>
      (reads_ask _).leaves_bind fun found _ => leaves_writeAll ⟨?_, ?_⟩
    · have hplaces := Output.places_ofAnswer a (.texts (found.map Address.render))
      exact fills_of_places hplaces fun _ => rfl
    · exact lends_of_check (o := .texts) hcheck
  clean :=
    (quiet_check _).clean_bind fun _ => (quiet_check _).clean_bind fun _ =>
      (quiet_ask _).clean_bind fun _ => (sure_writeAll _).clean
  refused := nofun

/-- A station makes nothing if it does not open a device. -/
theorem clean_makeDevice (args : String) :
    Clean (forward fun st : Station α => st.makeDevice args) := by
  refine clean_forward fun st e hmade => ?_
  rw [makeDevice_of_error st args hmade]
  exact .refl st.session

theorem boundary_makeDevice : Boundary .makeDevice a (runMake a) where
  answered :=
    (reads_check _).leaves_bind fun _ hgiven => (reads_check _).leaves_bind fun _ _ =>
      (reads_forward _).leaves_bind fun index _ => leaves_handle rfl (fun _ _ => rfl) hgiven index
  clean :=
    (quiet_check _).clean_bind fun _ => (quiet_check _).clean_bind fun args =>
      (clean_makeDevice args).bind_sure fun _ => sure_write _ _
  refused := nofun

/-! ## Calls on devices -/

/-- A device that builds a stream may free a handle first, and makes nothing. -/
theorem nothingNew_build (dir : Direction) (index : Nat) (args : StreamArgs)
    (s : Session (Opened α) (StreamOf α)) :
    NothingNew s (Station.build dir index args s).2 := by
  unfold Station.build
  cases s.devices.row? index with
  | none => exact .refl s
  | some row =>
    dsimp only
    cases row.record.device.radio.frees dir with
    | none => exact .refl s
    | some handle =>
      have hfree := nothingNew_freeStream s dir handle
      dsimp only
      cases (s.freeStream dir handle).1 <;> exact hfree

theorem nothingNew_stationAttach (dir : Direction) (index handle : Nat) (args : StreamArgs)
    (st : Station α) : NothingNew st.session (st.attach dir index handle args).2.session := by
  change NothingNew st.session
    (st.session.attach dir index handle (Station.build dir index args)).2
  cases hstart : st.session.resolveAttach dir index handle with
  | error e =>
    rw [attach_of_resolveAttach_eq_error hstart]
    exact .refl st.session
  | ok =>
    exact (nothingNew_build dir index args st.session).trans (nothingNew_attach hstart _)

theorem boundary_openStream (dir : Direction) :
    Boundary (.openStream dir) a (runOpen dir a) := by
  refine boundary_of_party rfl quiet_openArgs (fun desk hgone => ?_) (fun args => ?_)
    silent_openArgs fun args _ => ?_
  · have hrefused := deviceRecord_of_not_isLive hgone
    exact Refuses.bind (refuses_ask hrefused rfl)
  · have hattach := quiet_forward (nothingNew_stationAttach (α := α) dir a.handle a.stream args)
    exact hattach.clean_bind fun _ => (sure_pure _).clean
  · exact (reads_forward _).leaves_bind fun _ _ =>
      leaves_pure ⟨fills_of_places rfl fun _ => rfl, lends_nil⟩

/-- What a device answers fills the places of the function, and these were checked before. -/
theorem boundary_device {f : DeviceFunction α} (hf : f.Announced) :
    Boundary (.device f) a (runDevice f a) := by
  refine boundary_of_party rfl (quiet_forward fun st => ?_) (fun desk hgone => ?_)
    (fun _ => (sure_writeAll _).clean) (reads_forward _) fun answer hanswer => leaves_writeAll ?_
  · dsimp only [Station.deviceCall, Station.tick]
    exact nothingNew_deviceCall st.session a.handle _
  · have hrefused : (desk.station.deviceCall a.handle (f.prepare a)).1 =
        .error (.noDevice a.handle) := by
      dsimp only [Station.deviceCall]
      rw [deviceCall_of_not_has hgone]
    exact refuses_forward hrefused rfl
  · obtain ⟨st, hanswer⟩ := hanswer
    dsimp only [Station.deviceCall] at hanswer
    obtain ⟨o, ho⟩ := exists_of_deviceCall_eq_ok hanswer
    split at ho
    · cases ho
    · rename_i hdone
      cases ho
      obtain ⟨call, hprepared, hperformed⟩ := bind_eq_ok_iff.1 hdone
      obtain ⟨⟨⟩, hcheck, hcall⟩ := bind_eq_ok_iff.1 hprepared
      have hshape : answer.output = f.output :=
        (Radio.shaped_perform _ _ call _ hperformed).trans (hf a call hcall)
      refine ⟨fills_of_places ?_ fun _ => rfl, lends_of_check hcheck⟩
      rw [Output.places_ofAnswer, hshape]
      rfl

/-! ## Commands and transfers -/

theorem boundary_issue : Boundary .issue a (runIssue a) := by
  have hissue : CallsStream .rx a.handle (fun _ => True) (runIssue a) := by
    intro desk
    dsimp only [runIssue, forward, onStation, Station.issue, Station.tick, streamCall]
    exact ⟨_, _, rfl, rfl, rfl, fun _ _ _ _ => trivial⟩
  rw [← bind_pure (runIssue a)]
  exact boundary_of_callsStream rfl hissue (fun _ => (sure_pure _).clean) fun _ _ =>
    leaves_pure ⟨fills_of_places rfl fun _ => rfl, lends_nil⟩

theorem boundary_recv : Boundary .recv a (runRecv a) := by
  refine boundary_of_callsStream rfl (Q := fun _ => a.Lends [.metadata, .items])
    (fun desk => ⟨_, _, rfl, rfl, rfl, fun o stream v h => ?_⟩)
    (fun _ => Sure.clean (.bind (sure_write _ _) fun _ => sure_write _ _))
    fun transfer hlends => leaves_write_bind (leaves_write ?_)
  · split at h
    · cases h
    · rename_i hbuffers
      obtain ⟨⟨⟩, hmetadata, hbuffers⟩ := bind_eq_ok_iff.1 hbuffers
      obtain ⟨⟨⟩, hitems, -⟩ := bind_eq_ok_iff.1 hbuffers
      exact lends_cons_of_given hmetadata (lends_cons_of_given hitems lends_nil)
  · exact ⟨fills_of_places (by simp [places, leavesOut_eq_false]) fun _ => rfl, hlends⟩

theorem boundary_send : Boundary .send a (runSend a) := by
  refine boundary_of_callsStream rfl (Q := fun _ => a.Lends [.items])
    (fun desk => ?_) (fun _ => (sure_write _ _).clean) fun n hlends => leaves_write ?_
  · dsimp only [forward, onStation, Station.send, Station.tick, streamCall]
    refine ⟨_, _, rfl, rfl, rfl, fun o stream n h => ?_⟩
    dsimp only at h
    split at h
    · cases h
    · rename_i hpacket
      obtain ⟨⟨⟩, hitems, -⟩ := bind_eq_ok_iff.1 hpacket
      exact lends_cons_of_given hitems lends_nil
  · exact ⟨fills_of_places (by simp [places, leavesOut_eq_false]) fun _ => rfl, hlends⟩

theorem boundary_nextEvent : Boundary .nextEvent a (runNextEvent a) := by
  refine boundary_of_callsStream rfl (Q := fun _ => a.Lends [.metadata, .valid])
    (fun desk => ?_) (fun event => ?_) fun event hlends => leaves_write_bind ?_
  · dsimp only [forward, onStation, Station.nextEvent, Station.tick, streamCall]
    refine ⟨_, _, rfl, rfl, rfl, fun o stream event h => ?_⟩
    dsimp only at h
    split at h
    · cases h
    · rename_i hready
      obtain ⟨⟨⟩, hmetadata, hvalid⟩ := bind_eq_ok_iff.1 hready
      exact lends_cons_of_given hmetadata (lends_cons_of_given hvalid lends_nil)
  · refine Sure.clean (.bind (sure_write _ _) fun _ => ?_)
    cases event with
    | none => exact sure_pure ()
    | some md => exact sure_write _ _
  · -- the report is written if and only if it is said to be there
    cases event with
    | none =>
      refine leaves_pure ⟨fun p => ?_, hlends⟩
      cases p <;> simp [places, Spares, Writes.at?, leavesOut_eq_false]
    | some md =>
      refine leaves_write ⟨fun p => ?_, hlends⟩
      cases p <;> simp [places, Spares, Writes.at?, leavesOut_eq_false]

/-! ## Every function -/

/-- The functions on devices that can be called by name announce what they ask. -/
theorem announced_of_mem_table {name : String} {f : DeviceFunction α}
    (h : (name, .device f) ∈ table (α := α)) : f.Announced := by
  unfold table ofStreams at h
  simp only [List.mem_append, List.mem_cons, List.mem_map, Prod.mk.injEq, reduceCtorEq, and_false,
    List.not_mem_nil, or_false, false_or, device.injEq] at h
  obtain ⟨f', hf', -, rfl⟩ := h
  exact DeviceFunction.announced_of_mem_table f' hf'

theorem boundary_steps {name : String} {f : Function α} (hf : (name, f) ∈ table (α := α))
    (a : Arguments α) (latest : String) : Boundary f a (f.steps a latest) := by
  cases f with
  | lastError => exact boundary_lastError latest
  | find => exact boundary_find
  | makeDevice => exact boundary_makeDevice
  | freeDevice => exact boundary_freeDevice
  | deviceLastError => exact boundary_partyText (x := .device a.handle) rfl (fun _ _ => rfl) rfl
  | device f => exact boundary_device (announced_of_mem_table hf)
  | openStream dir => exact boundary_openStream dir
  | makeStream dir => exact boundary_makeStream dir
  | freeStream dir => exact boundary_freeStream dir
  | streamLastError dir =>
    exact boundary_partyText (x := .stream dir a.handle) rfl (fun _ _ => rfl) rfl
  | query dir q place => exact boundary_query dir q place
  | recv => exact boundary_recv
  | issue => exact boundary_issue
  | send => exact boundary_send
  | nextEvent => exact boundary_nextEvent

end Function

variable [Scalar α]

/-- The status of a fault is never that of a success. -/
theorem explain_ne_none (name : String) (fault : Fault) :
    (Interface.explain name fault).1 ≠ .none := by
  cases fault with
  | error e => exact status_ne_none e
  | crash text => exact nofun

theorem call_of_ok {i : Interface α} {f : Function α} {a : Arguments α} {desk : Desk α}
    (h : f.run a i = (.ok (), desk)) (name : String) :
    i.call name f a = (⟨.none, desk.writes, desk.buffers⟩, { i with station := desk.station }) := by
  unfold Interface.call
  rw [h]

theorem call_of_error {i : Interface α} {f : Function α} {a : Arguments α} {fault : Fault}
    {desk : Desk α} (h : f.run a i = (.error fault, desk)) (name : String) :
    i.call name f a =
      (⟨(Interface.explain name fault).1, desk.writes, desk.buffers⟩,
        ⟨desk.station, (Interface.explain name fault).2⟩) := by
  unfold Interface.call
  rw [h]

/-- Whatever function is called, on whatever station and with whatever arguments: if its status is
not that of a success, no place was written to, and no device and no handle was made or has come
back; if it is, every place of the function was lent and has been written, but for a text that has
no room and for the report of a transmit stream where there is none (and ranges for which there is
no room may be missing).  If the party that the function looks up first is not there, it is refused
as naming no device, whatever else is wrong with the arguments. -/
theorem call_keeps_boundary {name : String} {f : Function α}
    (hf : (name, f) ∈ Function.table (α := α)) (a : Arguments α) (i : Interface α) :
    let reply := (i.call name f a).1
    let before := i.station.session
    let after := (i.call name f a).2.station.session
    (reply.status ≠ .none →
      reply.writes = [] ∧
      (∀ x, after.wasMade x = before.wasMade x) ∧ ∀ x, after.has x → before.has x) ∧
    (reply.status = .none →
      (∀ p, (reply.writes.at? p).isSome ↔ p ∈ f.places ∧ ¬f.Spares a reply.writes p) ∧
      ∀ p ∈ f.places, p ∈ a.missing → (p = .text ∧ a.length = 0) ∨ (p = .ranges ∧ a.capacity = 0)) ∧
    ∀ x, f.first? a = some x → before.has x = false → reply.status = .invalidDevice := by
  have hsteps := Function.boundary_steps hf a i.lastError
  rcases hend : f.run a i with ⟨fault | ⟨⟩, desk⟩
  · rw [call_of_error hend]
    have huntouched := hsteps.clean _ fault desk hend
    refine ⟨fun _ => ⟨huntouched.writes, huntouched.session.made, huntouched.session.has⟩,
      fun h => absurd h (explain_ne_none name fault), fun x hx hgone => ?_⟩
    obtain ⟨e, desk', he, hstatus⟩ := hsteps.refused x (.start i.station) hx hgone
    cases hend.symm.trans he
    exact hstatus
  · rw [call_of_ok hend]
    refine ⟨fun h => absurd rfl h, fun _ => ?_, fun x hx hgone => ?_⟩
    · obtain ⟨w, hwrites, hanswered⟩ := hsteps.answered _ () desk hend
      cases hwrites
      exact hanswered
    · obtain ⟨e, desk', he, -⟩ := hsteps.refused x (.start i.station) hx hgone
      cases hend.symm.trans he

/-- The arguments of a caller who passes zeros and lends every place. -/
def Arguments.zero : Arguments ℚ where
  missing := []
  handle := 0
  board := 0
  chan := 0
  enable := false
  time := ⟨0, 0⟩
  value := 0
  register := 0
  data := 0
  word := 0
  mask := 0
  text := none
  name := none
  slot := none
  unit := none
  bank := none
  attr := none
  length := 0
  capacity := 0
  stream := 0
  streamArgs := ⟨none, none, none, [], 0⟩
  command := ⟨0, 0, false, ⟨0, 0⟩⟩
  tuning := ⟨0, 0, 0, 0, 0, none⟩
  record := ⟨0, [], 0⟩
  samples := 0
  timeout := 0
  onePacket := false
  packet := ⟨false, ⟨0, 0⟩, false, false⟩
  lent _ _ := 0

/-- A radio without boards, which crashes when it is dropped. -/
def lastWordsRadio : Radio ℚ := .stub {
  device := ⟨Address.empty, .standard, ⟨[]⟩, [], ⟨[], []⟩, ⟨[], 0⟩⟩
  gain := 0
  ranges := ⟨[]⟩
  frees _ := none
  lastWords := some "gone" }

/-- On a station with a radio that crashes when it is dropped: a wait for a report with no place to
put it is refused for its handle; a free call takes the radio out and fails then, before it has
written the handle; and the text of the latest failure is written out. -/
theorem refused_before_places :
    let station : Station ℚ := .initial .absent []
    let session := (station.session.addDevice ⟨lastWordsRadio, 0⟩).2
    let i : Interface ℚ := .initial { station with session := session }
    let freed := i.call "radio_device_free" .freeDevice { Arguments.zero with handle := 1 }
    (i.call "radio_tx_streamer_recv_async_msg" .nextEvent
        { Arguments.zero with missing := [.metadata, .valid], handle := 9 }).1.status =
          .invalidDevice ∧
      freed.1.status = .unknown ∧ freed.1.writes = [] ∧
      freed.2.station.session.has (.device 1) = false ∧
      ((freed.2.call "radio_get_last_error" .lastError
        { Arguments.zero with length := 8 }).1.writes.at? .text).isSome := by
  intro station session i freed
  have hreport : ("radio_tx_streamer_recv_async_msg", .nextEvent) ∈ Function.table (α := ℚ) := by
    simp [Function.table]
  have hfree : ("radio_device_free", .freeDevice) ∈ Function.table (α := ℚ) := by
    simp [Function.table]
  have htext : ("radio_get_last_error", .lastError) ∈ Function.table (α := ℚ) := by
    simp [Function.table]
  refine ⟨(call_keeps_boundary hreport _ i).2.2 (.stream .tx 9) rfl rfl, rfl, ?_, rfl, ?_⟩
  · have hfailed : freed.1.status ≠ .none := by
      show Status.unknown ≠ .none
      decide
    exact ((call_keeps_boundary hfree _ i).1 hfailed).1
  · exact (((call_keeps_boundary htext _ freed.2).2.1 rfl).1 .text).2
      ⟨List.mem_singleton_self _, nofun⟩

end SoftRadio.Flat
