/-!
Tables of records behind handles.  Handles count up from one and are never
given out twice.  A removed record can no longer be looked up, but its row
stays: a call under way may still hold it.
-/

namespace SoftRadio

structure HandleRow (β : Type) where
  record : β
  listed : Bool
  deriving Repr, Inhabited

/-- The rows of handles 1, 2, 3, … in order. -/
structure HandleTable (β : Type) where
  rows : List (HandleRow β)
  deriving Repr, Inhabited

namespace HandleTable

variable {β : Type}

def empty : HandleTable β := ⟨[]⟩

/-- Where the row of a handle is. -/
def place? (handle : Nat) : Option Nat := if handle = 0 then none else some (handle - 1)

/-- The row of a handle that was given out, removed or not. -/
def row? (t : HandleTable β) (handle : Nat) : Option (HandleRow β) :=
  (place? handle).bind fun i => t.rows[i]?

/-- The handle that the next record gets. -/
def next (t : HandleTable β) : Nat := t.rows.length + 1

/-- Add a record; also its handle. -/
def insert (t : HandleTable β) (record : β) : Nat × HandleTable β :=
  (t.next, ⟨t.rows ++ [⟨record, true⟩]⟩)

/-- The record of a handle. -/
def get? (t : HandleTable β) (handle : Nat) : Option β :=
  (t.row? handle).bind fun row => if row.listed then some row.record else none

def contains (t : HandleTable β) (handle : Nat) : Bool := (t.get? handle).isSome

/-- Change the record of a row, listed or not. -/
def modify (t : HandleTable β) (handle : Nat) (f : β → β) : HandleTable β :=
  match place? handle with
  | none => t
  | some i => ⟨t.rows.modify i fun row => { row with record := f row.record }⟩

/-- Take a handle out of the table; also its record. -/
def remove (t : HandleTable β) (handle : Nat) : Option β × HandleTable β :=
  (t.get? handle, match place? handle with
    | none => t
    | some i => ⟨t.rows.modify i fun row => { row with listed := false }⟩)

/-- The number of handles that can be looked up. -/
def size (t : HandleTable β) : Nat := t.rows.countP HandleRow.listed

def isEmpty (t : HandleTable β) : Bool := t.size == 0

/-- Take every handle out. -/
def clear (t : HandleTable β) : HandleTable β :=
  ⟨t.rows.map fun row => { row with listed := false }⟩

/-! ## What each operation does to a look-up -/

@[simp] theorem get?_empty (handle : Nat) : (empty : HandleTable β).get? handle = none := by
  unfold get? row? place?
  by_cases h : handle = 0 <;> simp [h, empty]

theorem row?_insert (t : HandleTable β) (record : β) (handle : Nat) :
    (t.insert record).2.row? handle =
      if handle = t.next then some ⟨record, true⟩ else t.row? handle := by
  unfold row? place? insert next
  by_cases hz : handle = 0
  · simp [hz]
  · simp only [if_neg hz, Option.bind_some, List.getElem?_append]
    by_cases hn : handle = t.rows.length + 1
    · simp [hn]
    · rw [if_neg hn]
      split
      · rfl
      · rw [List.getElem?_eq_none (by simp; omega), List.getElem?_eq_none (by omega)]

/-- A record is found behind the handle it got, and nothing else changes. -/
theorem get?_insert (t : HandleTable β) (record : β) (handle : Nat) :
    (t.insert record).2.get? handle =
      if handle = t.next then some record else t.get? handle := by
  unfold get?
  rw [row?_insert]
  split <;> simp

/-- The handle that is given out next was never given out before. -/
theorem row?_next (t : HandleTable β) : t.row? t.next = none := by
  simp [row?, place?, next]

theorem row?_modify (t : HandleTable β) (handle other : Nat) (f : β → β) :
    (t.modify handle f).row? other =
      if other = handle then (t.row? other).map (fun row => { row with record := f row.record })
      else t.row? other := by
  unfold row? modify place?
  by_cases hh : handle = 0 <;> by_cases ho : other = 0
  · simp [hh, ho]
  · simp [hh, ho]
  · simp [hh, ho]
  · simp only [if_neg hh, if_neg ho, Option.bind_some, List.getElem?_modify]
    by_cases he : other = handle
    · simp [he]
    · have hne : handle - 1 ≠ other - 1 := by omega
      simp [he, hne]

/-- A change of one record is seen behind its handle alone. -/
theorem get?_modify (t : HandleTable β) (handle other : Nat) (f : β → β) :
    (t.modify handle f).get? other =
      if other = handle then (t.get? other).map f else t.get? other := by
  unfold get?
  rw [row?_modify]
  by_cases he : other = handle
  · cases h : t.row? other with
    | none => simp [he]
    | some row => cases hl : row.listed <;> simp [he, hl]
  · simp [he]

theorem row?_remove (t : HandleTable β) (handle other : Nat) :
    (t.remove handle).2.row? other =
      if other = handle then (t.row? other).map (fun row => { row with listed := false })
      else t.row? other := by
  unfold row? remove place?
  by_cases hh : handle = 0 <;> by_cases ho : other = 0
  · simp [hh, ho]
  · simp [hh, ho]
  · simp [hh, ho]
  · simp only [if_neg hh, if_neg ho, Option.bind_some, List.getElem?_modify]
    by_cases he : other = handle
    · simp [he]
    · have hne : handle - 1 ≠ other - 1 := by omega
      simp [he, hne]

/-- A removed handle finds nothing, and the others find what they did. -/
theorem get?_remove (t : HandleTable β) (handle other : Nat) :
    (t.remove handle).2.get? other = if other = handle then none else t.get? other := by
  unfold get?
  rw [row?_remove]
  by_cases he : other = handle
  · cases h : t.row? other <;> simp [he]
  · simp [he]

theorem row?_clear (t : HandleTable β) (handle : Nat) :
    t.clear.row? handle = (t.row? handle).map fun row => { row with listed := false } := by
  unfold row? clear
  cases place? handle <;> simp

/-- After everything is taken out no handle finds anything. -/
@[simp] theorem get?_clear (t : HandleTable β) (handle : Nat) : t.clear.get? handle = none := by
  unfold get? row? clear
  cases place? handle with
  | none => rfl
  | some i => cases h : t.rows[i]? <;> simp [h]

/-- The handles that were given out are those from one up to the next one. -/
theorem isSome_row?_iff (t : HandleTable β) (handle : Nat) :
    (t.row? handle).isSome ↔ 1 ≤ handle ∧ handle < t.next := by
  unfold row? place? next
  by_cases hz : handle = 0
  · simp [hz]
  · simp only [if_neg hz, Option.bind_some, isSome_getElem?]
    omega

/-- Handles are never given out twice: no operation lowers the next one. -/
@[simp] theorem next_insert (t : HandleTable β) (record : β) :
    (t.insert record).2.next = t.next + 1 := by
  simp [insert, next]

@[simp] theorem next_modify (t : HandleTable β) (handle : Nat) (f : β → β) :
    (t.modify handle f).next = t.next := by
  unfold modify
  split <;> simp [next]

@[simp] theorem next_remove (t : HandleTable β) (handle : Nat) :
    (t.remove handle).2.next = t.next := by
  unfold remove
  cases place? handle <;> simp [next]

@[simp] theorem next_clear (t : HandleTable β) : t.clear.next = t.next := by
  simp [clear, next]

end HandleTable

end SoftRadio
