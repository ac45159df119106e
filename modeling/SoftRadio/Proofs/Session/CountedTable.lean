import Mathlib.Data.Finmap
import SoftRadio.Session.HandleTable

/-!
# Handles from a counter

A table of handles keeps the rows of the records that were taken out, and its next handle is read
off the number of its rows.  A table that forgets these records has to count the handles by itself.
Whatever is done with the two, they give out the same handles and find the same records.

* `CountedTable`: a counter, and the records that can be looked up.
* `Fresh`: the counter is ahead of every record; `Fresh.serve`, `fresh_run`.
* `handles_run`: a run gives out the handles from the counter on, one after the other.
* `Counts`: a table and its counted form; `Counts.serve`, `exists_counts`.
* `run_eq_counted`: the same answers and the same look-ups, after any run.
-/

namespace SoftRadio

/-- What is done with a table. -/
inductive TableRequest (β : Type) where
  | insert (record : β)
  | modify (handle : Nat) (f : β → β)
  | remove (handle : Nat)
  | clear

/-- What a request comes back with: the handle of a new record, or the record that is taken out. -/
inductive TableReply (β : Type) where
  | inserted (handle : Nat)
  | removed (record : Option β)
  | done

variable {β τ : Type}

/-- The handle that is given out. -/
def TableReply.handle? : TableReply β → Option Nat
  | .inserted handle => some handle
  | _ => none

def HandleTable.serve (t : HandleTable β) : TableRequest β → TableReply β × HandleTable β
  | .insert record => (.inserted (t.insert record).1, (t.insert record).2)
  | .modify handle f => (.done, t.modify handle f)
  | .remove handle => (.removed (t.remove handle).1, (t.remove handle).2)
  | .clear => (.done, t.clear)

/-- A table that counts the handles by itself. -/
structure CountedTable (β : Type) where
  next : Nat
  records : Finmap fun _ : Nat => β

def CountedTable.empty : CountedTable β := ⟨1, ∅⟩

def CountedTable.serve (m : CountedTable β) : TableRequest β → TableReply β × CountedTable β
  | .insert record => (.inserted m.next, ⟨m.next + 1, m.records.insert m.next record⟩)
  | .modify handle f =>
    match m.records.lookup handle with
    | some record => (.done, { m with records := m.records.insert handle (f record) })
    | none => (.done, m)
  | .remove handle =>
    (.removed (m.records.lookup handle), { m with records := m.records.erase handle })
  | .clear => (.done, { m with records := ∅ })

namespace TableRequest

/-- The answers to a run of requests, and the table that it leaves. -/
def run (serve : τ → TableRequest β → TableReply β × τ) :
    List (TableRequest β) → τ → List (TableReply β) × τ
  | [], t => ([], t)
  | r :: rest, t =>
    let later := run serve rest (serve t r).2
    ((serve t r).1 :: later.1, later.2)

end TableRequest

open TableRequest (run)

/-! ## The counter -/

namespace CountedTable

variable {m : CountedTable β}

/-- The counter is ahead of the handle of every record, and none of them is zero. -/
structure Fresh (m : CountedTable β) : Prop where
  pos : 0 < m.next
  below : ∀ handle ∈ m.records, 0 < handle ∧ handle < m.next

theorem fresh_empty : (empty : CountedTable β).Fresh where
  pos := Nat.one_pos
  below := by
    intro handle h
    cases Finmap.notMem_empty h

theorem Fresh.serve (h : m.Fresh) (r : TableRequest β) : (m.serve r).2.Fresh := by
  cases r with
  | insert record =>
    refine ⟨Nat.succ_pos m.next, fun handle hmem => ?_⟩
    rcases Finmap.mem_insert.1 hmem with rfl | hmem
    · exact ⟨h.pos, Nat.lt_succ_self m.next⟩
    · obtain ⟨hpos, hlt⟩ := h.below handle hmem
      exact ⟨hpos, Nat.lt_succ_of_lt hlt⟩
  | modify handle f =>
    unfold CountedTable.serve
    dsimp only
    cases hrecord : m.records.lookup handle with
    | none => exact h
    | some record =>
      refine ⟨h.pos, fun other hmem => ?_⟩
      rcases Finmap.mem_insert.1 hmem with rfl | hmem
      · exact h.below other (Finmap.mem_of_lookup_eq_some hrecord)
      · exact h.below other hmem
  | remove handle => exact ⟨h.pos, fun other hmem => h.below other (Finmap.mem_erase.1 hmem).2⟩
  | clear => exact ⟨h.pos, fun handle hmem => absurd hmem Finmap.notMem_empty⟩

theorem fresh_run (h : m.Fresh) (requests : List (TableRequest β)) :
    (run serve requests m).2.Fresh := by
  induction requests generalizing m with
  | nil => exact h
  | cons r rest ih => exact ih (h.serve r)

/-- A request that gives out a handle gives out what the counter says, and it counts on. -/
theorem handle?_serve (m : CountedTable β) (r : TableRequest β) :
    (m.serve r).1.handle? = some m.next ∧ (m.serve r).2.next = m.next + 1 ∨
      (m.serve r).1.handle? = none ∧ (m.serve r).2.next = m.next := by
  cases r with
  | insert record => exact .inl ⟨rfl, rfl⟩
  | modify handle f =>
    right
    unfold CountedTable.serve
    dsimp only
    cases m.records.lookup handle <;> exact ⟨rfl, rfl⟩
  | remove handle => exact .inr ⟨rfl, rfl⟩
  | clear => exact .inr ⟨rfl, rfl⟩

/-- A run gives out the handles from the counter on, one after the other. -/
theorem handles_run (m : CountedTable β) (requests : List (TableRequest β)) :
    ∃ count, (run serve requests m).2.next = m.next + count ∧
      (run serve requests m).1.filterMap TableReply.handle? = List.range' m.next count := by
  induction requests generalizing m with
  | nil => exact ⟨0, rfl, rfl⟩
  | cons r rest ih =>
    obtain ⟨count, hnext, hhandles⟩ := ih (m.serve r).2
    rcases m.handle?_serve r with ⟨hhandle, hserve⟩ | ⟨hhandle, hserve⟩
    · rw [hserve] at hnext hhandles
      refine ⟨count + 1, hnext.trans (by omega), ?_⟩
      refine (List.filterMap_cons_some hhandle).trans ?_
      rw [List.range'_succ, hhandles]
    · rw [hserve] at hnext hhandles
      exact ⟨count, hnext, (List.filterMap_cons_none hhandle).trans hhandles⟩

end CountedTable

/-! ## A table and its counted form -/

/-- A table and a counted one that give out the same handle next and find the same records. -/
structure Counts (t : HandleTable β) (m : CountedTable β) : Prop where
  next : m.next = t.next
  finds : ∀ handle, m.records.lookup handle = t.get? handle

variable {t : HandleTable β} {m : CountedTable β}

theorem counts_empty : Counts (HandleTable.empty : HandleTable β) CountedTable.empty where
  next := rfl
  finds handle := (Finmap.lookup_empty handle).trans (HandleTable.get?_empty handle).symm

/-- Both answer a request alike, and are alike after it. -/
theorem Counts.serve (h : Counts t m) (r : TableRequest β) :
    (m.serve r).1 = (t.serve r).1 ∧ Counts (t.serve r).2 (m.serve r).2 := by
  cases r with
  | insert record =>
    refine ⟨congrArg TableReply.inserted h.next, ?_, fun handle => ?_⟩
    · exact (congrArg (· + 1) h.next).trans (t.next_insert record).symm
    · show (m.records.insert m.next record).lookup handle = (t.insert record).2.get? handle
      rw [HandleTable.get?_insert, ← h.next]
      by_cases hhandle : handle = m.next
      · rw [if_pos hhandle, hhandle, Finmap.lookup_insert]
      · rw [if_neg hhandle, Finmap.lookup_insert_of_ne _ hhandle, h.finds]
  | modify handle f =>
    unfold CountedTable.serve HandleTable.serve
    dsimp only
    cases hrecord : m.records.lookup handle with
    | none =>
      refine ⟨rfl, h.next.trans (t.next_modify handle f).symm, fun other => ?_⟩
      rw [HandleTable.get?_modify, h.finds]
      split
      next heq =>
        subst heq
        rw [← h.finds, hrecord]
        rfl
      · rfl
    | some record =>
      refine ⟨rfl, h.next.trans (t.next_modify handle f).symm, fun other => ?_⟩
      rw [HandleTable.get?_modify]
      by_cases heq : other = handle
      · subst heq
        rw [if_pos rfl, Finmap.lookup_insert, ← h.finds, hrecord]
        rfl
      · rw [if_neg heq, Finmap.lookup_insert_of_ne _ heq, h.finds]
  | remove handle =>
    refine ⟨congrArg TableReply.removed (h.finds handle), ?_, fun other => ?_⟩
    · exact h.next.trans (t.next_remove handle).symm
    · show (m.records.erase handle).lookup other = (t.remove handle).2.get? other
      rw [HandleTable.get?_remove]
      by_cases heq : other = handle
      · rw [if_pos heq, heq, Finmap.lookup_erase]
      · rw [if_neg heq, Finmap.lookup_erase_ne heq, h.finds]
  | clear =>
    refine ⟨rfl, h.next.trans t.next_clear.symm, fun handle => ?_⟩
    exact (Finmap.lookup_empty handle).trans (t.get?_clear handle).symm

/-- A record that is put in and taken out again leaves its row behind. -/
theorem HandleTable.remove_insert (t : HandleTable β) (record : β) :
    ((t.insert record).2.remove t.next).2 = ⟨t.rows ++ [⟨record, false⟩]⟩ := by
  simp [insert, remove, HandleTable.next, place?, List.modify_eq_set_getElem?]

/-- Every table has a counted form. -/
theorem exists_counts (t : HandleTable β) : ∃ m, Counts t m := by
  obtain ⟨rows⟩ := t
  induction rows using List.reverseRecOn with
  | nil => exact ⟨CountedTable.empty, counts_empty⟩
  | append_singleton rows row ih =>
    obtain ⟨m, h⟩ := ih
    obtain ⟨record, listed⟩ := row
    have hinserted := (h.serve (.insert record)).2
    cases listed with
    | true => exact ⟨_, hinserted⟩
    | false =>
      have hremoved := (hinserted.serve (.remove (HandleTable.next ⟨rows⟩))).2
      exact ⟨_, HandleTable.remove_insert ⟨rows⟩ record ▸ hremoved⟩

theorem Counts.run (h : Counts t m) (requests : List (TableRequest β)) :
    (TableRequest.run CountedTable.serve requests m).1 =
        (TableRequest.run HandleTable.serve requests t).1 ∧
      Counts (TableRequest.run HandleTable.serve requests t).2
        (TableRequest.run CountedTable.serve requests m).2 := by
  induction requests generalizing t m with
  | nil => exact ⟨rfl, h⟩
  | cons r rest ih =>
    obtain ⟨hreply, hafter⟩ := h.serve r
    obtain ⟨hreplies, hlast⟩ := ih hafter
    exact ⟨congrArg₂ List.cons hreply hreplies, hlast⟩

/-- Two tables are begun, one that keeps its rows and one with a counter, and the same is done with
both.  They answer alike and find the same records, the handles are given out from one on, and the
counter is ahead of every record. -/
theorem run_eq_counted (requests : List (TableRequest β)) :
    let rows := run HandleTable.serve requests HandleTable.empty
    let counted := run CountedTable.serve requests CountedTable.empty
    counted.1 = rows.1 ∧ Counts rows.2 counted.2 ∧ counted.2.Fresh ∧
      rows.1.filterMap TableReply.handle? = List.range' 1 (rows.2.next - 1) := by
  intro rows counted
  obtain ⟨hreplies, hcounts⟩ := counts_empty.run requests
  refine ⟨hreplies, hcounts, CountedTable.fresh_run CountedTable.fresh_empty requests, ?_⟩
  obtain ⟨count, hnext, hhandles⟩ := CountedTable.handles_run CountedTable.empty requests
  have hcount : rows.2.next - 1 = count := by
    have hsum : rows.2.next = 1 + count := hcounts.next.symm.trans hnext
    omega
  rw [hcount]
  exact (congrArg (List.filterMap TableReply.handle?) hreplies).symm.trans hhandles

end SoftRadio
