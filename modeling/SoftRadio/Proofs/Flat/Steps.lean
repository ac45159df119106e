import SoftRadio.Flat.Desk
import SoftRadio.Proofs.Flat.Shape
import SoftRadio.Proofs.Session.Numbers
import SoftRadio.Proofs.Steps

/-!
# Rows of steps that fail before they write

A step that fails ends its row, and the desk stays as the steps before it have left it.  So whether
a failure leaves something behind depends on the order: steps that may be refused come first, and
the writes, which cannot fail, come last.

* `Quiet`, `Sure`, `Clean`: steps that never leave anything behind, that never fail, and that leave
  nothing behind if they fail.  `Quiet.clean_bind` and `Clean.bind_sure` put rows together.
* `Reads`: steps before the writes, and what is known of their results.
* `Leaves`: what a row has written if it succeeds.
* `Refuses`: rows that end with a refusal of the party that they name.
-/

namespace SoftRadio.Flat

open Session

variable {α β γ : Type}

/-- Between two looks at a desk nothing was written, and no device and no handle was made or has
come back. -/
structure Untouched (desk desk' : Desk α) : Prop where
  writes : desk'.writes = desk.writes
  session : NothingNew desk.station.session desk'.station.session

namespace Untouched

variable {desk desk' desk'' : Desk α}

theorem refl (desk : Desk α) : Untouched desk desk := ⟨rfl, .refl _⟩

theorem trans (h : Untouched desk desk') (h' : Untouched desk' desk'') : Untouched desk desk'' :=
  ⟨h'.writes.trans h.writes, h.session.trans h'.session⟩

end Untouched

namespace Desk

open Steps

variable {x : Steps (Desk α) β} {k : β → Steps (Desk α) γ} {desk desk' : Desk α}

/-! ## Writes -/

theorem run_write (p : Place) (c : Content α) (desk : Desk α) :
    write p c desk = (.ok (), { desk with writes := desk.writes ++ [(p, c)] }) := rfl

theorem run_writeAll (w : Writes α) (desk : Desk α) :
    writeAll w desk = (.ok (), { desk with writes := desk.writes ++ w }) := by
  unfold writeAll
  induction w generalizing desk with
  | nil => rw [List.forM_nil, run_pure, List.append_nil]
  | cons entry w ih =>
    rw [List.forM_cons, bind_of_ok (run_write entry.1 entry.2 desk), ih, List.append_assoc]
    rfl

theorem raise_eq_ok_iff {r : Except Error β} {v : β} : raise r = .ok v ↔ r = .ok v := by
  cases r <;> simp [raise, refuse]

/-! ## What a failure leaves behind -/

/-- However it ends, nothing is left behind. -/
def Quiet (x : Steps (Desk α) β) : Prop := ∀ desk, Untouched desk (x desk).2

def Sure (x : Steps (Desk α) β) : Prop := ∀ desk, ∃ v desk', x desk = (.ok v, desk')

/-- If it fails, nothing is left behind. -/
def Clean (x : Steps (Desk α) β) : Prop :=
  ∀ desk fault desk', x desk = (.error fault, desk') → Untouched desk desk'

theorem Quiet.clean (h : Quiet x) : Clean x := by
  intro desk fault desk' hx
  have hquiet := h desk
  rwa [hx] at hquiet

theorem Sure.clean (h : Sure x) : Clean x := by
  intro desk fault desk' hx
  obtain ⟨v, between, hv⟩ := h desk
  rw [hv] at hx
  cases hx

theorem Quiet.clean_bind (h : Quiet x) (hk : ∀ v, Clean (k v)) : Clean (x >>= k) := by
  intro desk fault desk' hrow
  have hquiet := h desk
  rcases hx : x desk with ⟨fault' | v, between⟩
  · rw [bind_of_error hx] at hrow
    cases hrow
    rwa [hx] at hquiet
  · rw [bind_of_ok hx] at hrow
    rw [hx] at hquiet
    exact hquiet.trans (hk v between fault desk' hrow)

theorem Clean.bind_sure (h : Clean x) (hk : ∀ v, Sure (k v)) : Clean (x >>= k) := by
  intro desk fault desk' hrow
  rcases hx : x desk with ⟨fault' | v, between⟩
  · rw [bind_of_error hx] at hrow
    cases hrow
    exact h desk fault desk' hx
  · rw [bind_of_ok hx] at hrow
    obtain ⟨w, last, hw⟩ := hk v between
    rw [hw] at hrow
    cases hrow

theorem Quiet.bind (h : Quiet x) (hk : ∀ v, Quiet (k v)) : Quiet (x >>= k) := by
  intro desk
  have hquiet := h desk
  rcases hx : x desk with ⟨fault | v, between⟩
  · rw [bind_of_error hx]
    rwa [hx] at hquiet
  · rw [bind_of_ok hx]
    rw [hx] at hquiet
    exact hquiet.trans (hk v between)

theorem Sure.bind (h : Sure x) (hk : ∀ v, Sure (k v)) : Sure (x >>= k) := by
  intro desk
  obtain ⟨v, between, hx⟩ := h desk
  rw [bind_of_ok hx]
  exact hk v between

/-- In the other order a failure leaves something behind: what was written before a refusal stays
written. -/
theorem not_clean_write_bind (desk : Desk α) (p : Place) (c : Content α) (e : Error) :
    ¬Clean (write p c >>= fun _ => (check (refuse e) : Steps (Desk α) β)) := by
  intro h
  have hrefused := bind_of_ok (k := fun _ => (check (refuse e) : Steps (Desk α) β))
    (run_write p c desk)
  have hwrites := (h desk _ _ hrefused).writes
  simp at hwrites

theorem quiet_check (r : Except Fault β) : Quiet (check r : Steps (Desk α) β) := .refl

theorem quiet_onStation {f : Station α → Except Fault β × Station α}
    (h : ∀ st, NothingNew st.session (f st).2.session) : Quiet (onStation f) :=
  fun desk => ⟨rfl, h desk.station⟩

theorem quiet_ask (f : Station α → Except Error β) : Quiet (ask f) :=
  quiet_onStation fun st => .refl st.session

theorem quiet_forward {f : Station α → Except Error β × Station α}
    (h : ∀ st, NothingNew st.session (f st).2.session) : Quiet (forward f) :=
  quiet_onStation h

/-- A call that makes something only if it succeeds. -/
theorem clean_forward {f : Station α → Except Error β × Station α}
    (h : ∀ st e, (f st).1 = .error e → NothingNew st.session (f st).2.session) :
    Clean (forward f) := by
  intro desk fault desk' hrun
  cases hresult : (f desk.station).1 with
  | ok v => cases (congrArg raise hresult).symm.trans (congrArg Prod.fst hrun)
  | error e =>
    cases congrArg Prod.snd hrun
    exact ⟨rfl, h desk.station e hresult⟩

theorem sure_pure (v : β) : Sure (pure v : Steps (Desk α) β) := fun desk => ⟨v, desk, rfl⟩

theorem sure_write (p : Place) (c : Content α) : Sure (write p c) :=
  fun desk => ⟨(), _, run_write p c desk⟩

theorem sure_writeAll (w : Writes α) : Sure (writeAll w) :=
  fun desk => ⟨(), _, run_writeAll w desk⟩

/-! ## What a success has written -/

/-- Steps that write nothing; if they succeed, something is known of what they give. -/
structure Reads (Q : β → Prop) (x : Steps (Desk α) β) : Prop where
  silent : ∀ desk, (x desk).2.writes = desk.writes
  gives : ∀ desk v desk', x desk = (.ok v, desk') → Q v

theorem reads_check (r : Except Fault β) : Reads (r = .ok ·) (check r : Steps (Desk α) β) where
  silent _ := rfl
  gives := by
    rintro desk v _ ⟨⟩
    rfl

theorem reads_onStation (f : Station α → Except Fault β × Station α) :
    Reads (fun v => ∃ st, (f st).1 = .ok v) (onStation f) where
  silent _ := rfl
  gives desk _ _ h := ⟨desk.station, congrArg Prod.fst h⟩

theorem reads_forward (f : Station α → Except Error β × Station α) :
    Reads (fun v => ∃ st, (f st).1 = .ok v) (forward f) where
  silent _ := rfl
  gives desk _ _ h := ⟨desk.station, raise_eq_ok_iff.1 (congrArg Prod.fst h)⟩

theorem reads_ask (f : Station α → Except Error β) :
    Reads (fun v => ∃ st, f st = .ok v) (ask f) where
  silent _ := rfl
  gives desk _ _ h := ⟨desk.station, raise_eq_ok_iff.1 (congrArg Prod.fst h)⟩

/-- What was written, in order, has a property, if the steps succeed. -/
def Leaves (P : Writes α → Prop) (x : Steps (Desk α) β) : Prop :=
  ∀ desk v desk', x desk = (.ok v, desk') → ∃ w, desk'.writes = desk.writes ++ w ∧ P w

variable {P : Writes α → Prop} {Q : β → Prop}

theorem Reads.leaves_bind (h : Reads Q x) (hk : ∀ v, Q v → Leaves P (k v)) :
    Leaves P (x >>= k) := by
  intro desk w desk' hrow
  obtain ⟨v, between, hx, hrest⟩ := exists_of_bind_eq_ok hrow
  have hsilent := h.silent desk
  rw [hx] at hsilent
  obtain ⟨written, hwrites, hP⟩ := hk v (h.gives desk v between hx) between w desk' hrest
  exact ⟨written, hwrites.trans (congrArg (· ++ written) hsilent), hP⟩

theorem leaves_pure {v : β} (h : P []) : Leaves P (pure v : Steps (Desk α) β) := by
  rintro desk _ _ ⟨⟩
  exact ⟨[], (List.append_nil _).symm, h⟩

theorem leaves_write {p : Place} {c : Content α} (h : P [(p, c)]) : Leaves P (write p c) := by
  rintro desk _ _ ⟨⟩
  exact ⟨_, rfl, h⟩

theorem leaves_writeAll {w : Writes α} (h : P w) : Leaves P (writeAll w) := by
  intro desk v desk' hrow
  rw [run_writeAll] at hrow
  cases hrow
  exact ⟨w, rfl, h⟩

/-- A write stands in front of what is written after it. -/
theorem leaves_write_bind {p : Place} {c : Content α} {rest : Unit → Steps (Desk α) γ}
    (h : Leaves (fun w => P ((p, c) :: w)) (rest ())) : Leaves P (write p c >>= rest) := by
  intro desk v desk' hrow
  rw [bind_of_ok (run_write p c desk)] at hrow
  obtain ⟨w, hwrites, hP⟩ := h _ v desk' hrow
  exact ⟨(p, c) :: w, by rw [hwrites, List.append_assoc]; rfl, hP⟩

/-! ## What a refusal says -/

/-- The row ends with a refusal that names no device. -/
def Refuses (x : Steps (Desk α) β) (desk : Desk α) : Prop :=
  ∃ e desk', x desk = (.error (.error e), desk') ∧ e.status = .invalidDevice

theorem Refuses.bind (h : Refuses x desk) : Refuses (x >>= k) desk := by
  obtain ⟨e, desk', hx, hstatus⟩ := h
  exact ⟨e, desk', bind_of_error hx, hstatus⟩

theorem refuses_onStation {f : Station α → Except Fault β × Station α} {e : Error}
    (h : (f desk.station).1 = .error (.error e)) (hstatus : e.status = .invalidDevice) :
    Refuses (onStation f) desk :=
  ⟨e, _, Prod.ext h rfl, hstatus⟩

theorem refuses_forward {f : Station α → Except Error β × Station α} {e : Error}
    (h : (f desk.station).1 = .error e) (hstatus : e.status = .invalidDevice) :
    Refuses (forward f) desk :=
  refuses_onStation (congrArg raise h) hstatus

theorem refuses_ask {f : Station α → Except Error β} {e : Error} (h : f desk.station = .error e)
    (hstatus : e.status = .invalidDevice) : Refuses (ask f) desk :=
  refuses_onStation (congrArg raise h) hstatus

/-- A check that is passed leaves the refusal to what comes after it. -/
theorem refuses_check_bind {r : Except Fault β} {v : β} (hr : r = .ok v)
    (h : Refuses (k v) desk) : Refuses (check r >>= k) desk := by
  obtain ⟨e, desk', hk, hstatus⟩ := h
  refine ⟨e, desk', ?_, hstatus⟩
  rw [← hk]
  exact bind_of_ok (by rw [hr]; rfl)

end Desk

end SoftRadio.Flat
