/-!
Slots: places numbered from zero, each vacant or occupied.  A new value
goes to the first vacant place, and only if there is none is a place added.
-/

namespace SoftRadio

structure Slots (β : Type) where
  cells : List (Option β)
  deriving Repr, Inhabited

namespace Slots

variable {β : Type}

def empty : Slots β := ⟨[]⟩

/-- Put a value into the first vacant cell; also the cell's number. -/
def attachIn (v : β) : List (Option β) → Nat × List (Option β)
  | [] => (0, [some v])
  | none :: rest => (0, some v :: rest)
  | some w :: rest =>
    let (offset, rest) := attachIn v rest
    (offset + 1, some w :: rest)

/-- Occupy the first vacant place. -/
def attach (s : Slots β) (v : β) : Nat × Slots β :=
  let (offset, cells) := attachIn v s.cells
  (offset, ⟨cells⟩)

/-- What is at a place. -/
def get? (s : Slots β) (offset : Nat) : Option β := (s.cells[offset]?).join

/-- Vacate a place; also what was there. -/
def detach (s : Slots β) (offset : Nat) : Option β × Slots β :=
  (s.get? offset, ⟨s.cells.set offset none⟩)

/-- Change what is at a place; a vacant place stays vacant. -/
def update (s : Slots β) (offset : Nat) (v : β) : Slots β :=
  if (s.get? offset).isSome then ⟨s.cells.set offset (some v)⟩ else s

/-- The number of occupied places. -/
def live (s : Slots β) : Nat := s.cells.countP Option.isSome

/-- The number of places. -/
def capacity (s : Slots β) : Nat := s.cells.length

/-! ## What each operation does to a look-up -/

/-- A value goes to a vacant place. -/
theorem getElem?_attachIn_self (v : β) : (cells : List (Option β)) →
    (cells[(attachIn v cells).1]?).join = none
  | [] => rfl
  | none :: _ => rfl
  | some _ :: rest => getElem?_attachIn_self v rest

/-- No place before the one chosen is vacant. -/
theorem isSome_of_lt_attachIn (v : β) : (cells : List (Option β)) → (offset : Nat) →
    offset < (attachIn v cells).1 → ((cells[offset]?).join).isSome
  | [], _, h => absurd h (Nat.not_lt_zero _)
  | none :: _, _, h => absurd h (Nat.not_lt_zero _)
  | some _ :: _, 0, _ => rfl
  | some _ :: rest, offset + 1, h =>
    isSome_of_lt_attachIn v rest offset (Nat.lt_of_succ_lt_succ h)

theorem getElem?_attachIn (v : β) : (cells : List (Option β)) → (offset : Nat) →
    ((attachIn v cells).2[offset]?).join =
      if offset = (attachIn v cells).1 then some v else (cells[offset]?).join
  | [], 0 => rfl
  | [], offset + 1 => by simp [attachIn]
  | none :: _, 0 => rfl
  | none :: _, offset + 1 => by simp [attachIn]
  | some _ :: _, 0 => by simp [attachIn]
  | some _ :: rest, offset + 1 => by
    have ih := getElem?_attachIn v rest offset
    simp only [attachIn, List.getElem?_cons_succ, Nat.add_right_cancel_iff]
    exact ih

/-- The place that gets a value was vacant. -/
theorem get?_attach_fst (s : Slots β) (v : β) : s.get? (s.attach v).1 = none :=
  getElem?_attachIn_self v s.cells

/-- Every place before the one that gets a value is occupied. -/
theorem isSome_get?_of_lt_attach (s : Slots β) (v : β) (offset : Nat)
    (h : offset < (s.attach v).1) : (s.get? offset).isSome :=
  isSome_of_lt_attachIn v s.cells offset h

/-- The new value is at its place, and no other place changes. -/
theorem get?_attach (s : Slots β) (v : β) (offset : Nat) :
    (s.attach v).2.get? offset = if offset = (s.attach v).1 then some v else s.get? offset :=
  getElem?_attachIn v s.cells offset

/-- A place that is vacated is vacant, and no other place changes. -/
theorem get?_detach (s : Slots β) (offset other : Nat) :
    (s.detach offset).2.get? other = if other = offset then none else s.get? other := by
  unfold get? detach
  rw [List.getElem?_set]
  by_cases h : other = offset
  · subst h
    by_cases hl : other < s.cells.length <;> simp [hl]
  · rw [if_neg (Ne.symm h), if_neg h]

theorem get?_update (s : Slots β) (offset other : Nat) (v : β) :
    (s.update offset v).get? other =
      if other = offset then (s.get? other).map (fun _ => v) else s.get? other := by
  unfold update
  by_cases hs : (s.get? offset).isSome
  · rw [if_pos hs]
    have hl : offset < s.cells.length := by
      refine Nat.lt_of_not_le fun hle => ?_
      rw [get?, List.getElem?_eq_none hle] at hs
      exact absurd hs (by simp)
    by_cases h : other = offset
    · subst h
      obtain ⟨w, hw⟩ := Option.isSome_iff_exists.1 hs
      rw [if_pos rfl, hw]
      simp [get?, hl]
    · rw [if_neg h]
      unfold get?
      rw [List.getElem?_set, if_neg (Ne.symm h)]
  · rw [if_neg hs]
    by_cases h : other = offset
    · subst h
      rw [if_pos rfl, Option.not_isSome_iff_eq_none.1 hs]
      rfl
    · rw [if_neg h]

/-- Vacating a place does not take it away. -/
@[simp] theorem capacity_detach (s : Slots β) (offset : Nat) :
    (s.detach offset).2.capacity = s.capacity := by
  simp [detach, capacity]

end Slots

end SoftRadio
