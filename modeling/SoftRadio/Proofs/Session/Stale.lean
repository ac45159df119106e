import SoftRadio.Proofs.Session.Failure

/-!
# Numbers are given out once, and a party that is gone stays gone

An operation may name the parties that it needs (`Op.Names`) and the parties that it takes out
(`Op.Removes`).

* `has_of_removes`: what is taken out is gone, whatever the session was.
* `exists_failure?_of_names`: an operation that names a party that is not there is refused.
* `numbers_and_stale`: every kind counts one, two, three, and so on, through the whole run, and
  whoever was given a number and is gone is refused ever after.
-/

namespace SoftRadio.Session

variable {δ : Type} {σ : Direction → Type}

/-- The parties that an operation cannot do without. -/
def Op.Names : Op δ σ → Party → Prop
  | .freeDevice index, x => x = .device index
  | .freeStream dir handle, x => x = .stream dir handle
  | .attach dir index handle _ _, x => x = .device index ∨ x = .stream dir handle
  | .deviceCall index _, x => x = .device index
  | .streamCall dir handle _, x => x = .stream dir handle
  | .makeDevice _, _ | .makeStream _, _ | .clear, _ => False

/-- The parties that an operation takes out. -/
def Op.Removes : Op δ σ → Party → Prop
  | .freeDevice index, x => x = .device index
  | .freeStream dir handle, x => x = .stream dir handle
  | .clear, _ => True
  | _, _ => False

/-- What is taken out is gone. -/
theorem has_of_removes {op : Op δ σ} {x : Party} (h : op.Removes x) (s : Session δ σ) :
    (op.run s).2.has x = false := by
  rw [has_eq_isSome_slot]
  cases op with
  | freeDevice index =>
    rw [Op.run, slot_freeDevice, if_pos (show x = .device index from h)]
    rfl
  | freeStream dir handle =>
    rw [Op.run, slot_freeStream, if_pos (show x = .stream dir handle from h)]
    rfl
  | clear =>
    rw [Op.run, slot_clear]
    rfl
  | makeDevice | makeStream | attach | deviceCall | streamCall => exact h.elim

/-- Who is not there cannot be named. -/
theorem exists_failure?_of_names {op : Op δ σ} {x : Party} (h : op.Names x) {s : Session δ σ}
    (hgone : s.has x = false) : ∃ e, op.failure? s = some e ∧ e.status = .invalidDevice := by
  cases op with
  | freeDevice index =>
    cases h
    exact ⟨.noDevice index, by rw [Op.failure?, freeDevice_of_not_has hgone]; rfl, rfl⟩
  | freeStream dir handle =>
    cases h
    exact ⟨.noStreamer dir handle, by rw [Op.failure?, freeStream_of_not_has hgone]; rfl, rfl⟩
  | attach dir index handle during built =>
    have hnone : s.has (.device index) = false ∨ s.has (.stream dir handle) = false := by
      rcases h with rfl | rfl
      · exact Or.inl hgone
      · exact Or.inr hgone
    obtain ⟨e, he, hstatus⟩ := attach_of_not_has hnone fun _ =>
      (built (runAll during s).2, (runAll during s).2)
    exact ⟨e, by rw [Op.failure?, he]; rfl, hstatus⟩
  | deviceCall index f =>
    cases h
    exact ⟨.noDevice index, by rw [Op.failure?, deviceCall_of_not_has hgone]; rfl, rfl⟩
  | streamCall dir handle f =>
    cases h
    exact ⟨.noStreamer dir handle, by rw [Op.failure?, streamRun_of_not_has hgone]; rfl, rfl⟩
  | makeDevice | makeStream | clear => exact h.elim

/-- In every run the devices are numbered one, two, three, and so on, in the order in which they
were made, and so are the handles of each direction, whatever was freed, refused or cleared between;
nobody gets the number zero.  Whoever was freed or cleared is gone, and whoever has got a number
and is gone stays so: all that is done later under that number is refused as naming no device. -/
theorem numbers_and_stale (ops : List (Op δ σ)) :
    (∀ k, numbers k (runAll ops initial).1 =
        List.range' 1 (numbers k (runAll ops (initial : Session δ σ)).1).length ∧
      0 ∉ numbers k (runAll ops (initial : Session δ σ)).1) ∧
    (∀ op x, op.Removes x → (runAll (ops ++ [op]) (initial : Session δ σ)).2.has x = false) ∧
    ∀ x : Party, x.number ∈ numbers x.kind (runAll ops (initial : Session δ σ)).1 →
      (runAll ops (initial : Session δ σ)).2.has x = false →
      ∀ later, (runAll (ops ++ later) (initial : Session δ σ)).2.has x = false ∧
        (∀ op : Op δ σ, op.Names x →
          ∃ e, op.failure? (runAll (ops ++ later) initial).2 = some e ∧
            e.status = .invalidDevice) ∧
        ∃ e, e.status = .invalidDevice ∧
          (runAll (ops ++ later) (initial : Session δ σ)).2.lastError x = .error e ∧
          ∀ dir handle, x = .stream dir handle →
            (runAll (ops ++ later) (initial : Session δ σ)).2.streamBinding dir handle =
              .error e := by
  refine ⟨fun k => ⟨numbers_runAll ops k, ?_⟩, fun op x h => ?_, fun x hissued hgone later => ?_⟩
  · rw [numbers_runAll]
    simp
  · rw [runAll_append]
    exact has_of_removes h (runAll ops initial).2
  · have hmade : (runAll ops initial).2.wasMade x := (wasMade_runAll_iff ops x).2 hissued
    have hstill : (runAll (ops ++ later) (initial : Session δ σ)).2.has x = false := by
      rw [runAll_append]
      exact (grown_runAll later (runAll ops initial).2).stays_gone hmade hgone
    exact ⟨hstill, fun op hnames => exists_failure?_of_names hnames hstill,
      exists_lastError_of_not_has hstill⟩

/-- The first of two devices is freed and a third one opened: the second free of the first device
is refused, and so is an attach on it. -/
theorem refused_after_free :
    let ops : List (Op Unit fun _ => Nat) :=
      [.makeDevice (.ok ()), .makeDevice (.error (.crash "no board")), .makeDevice (.ok ())]
    let free : Op Unit fun _ => Nat := .freeDevice 1
    let rest : List (Op Unit fun _ => Nat) := [.makeDevice (.ok ()), .makeStream .tx]
    let run := runAll (ops ++ [free] ++ rest) initial
    numbers .device run.1 = [1, 2, 3] ∧ run.2.has (.device 3) ∧
      (∃ e, free.failure? run.2 = some e ∧ e.status = .invalidDevice) ∧
      ∃ e, (Op.attach .tx 1 1 [] fun _ => .ok 10).failure? run.2 = some e ∧
        e.status = .invalidDevice := by
  intro ops free rest run
  have hgone := (numbers_and_stale ops).2.1 free (.device 1) rfl
  have hissued : 1 ∈ numbers .device (runAll (ops ++ [free]) initial).1 := List.mem_cons_self
  obtain ⟨-, hrefused, -⟩ :=
    (numbers_and_stale (ops ++ [free])).2.2 (.device 1) hissued hgone rest
  exact ⟨((numbers_and_stale (ops ++ [free] ++ rest)).1 .device).1, by decide,
    hrefused free rfl, hrefused (.attach .tx 1 1 [] fun _ => .ok 10) (Or.inl rfl)⟩

end SoftRadio.Session
