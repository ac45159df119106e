import Mathlib.Data.List.Induction
import Mathlib.Order.Bounds.Defs
import Mathlib.Order.MinMax
import SoftRadio.Session.Slots

/-!
# Places are used again before new ones are made

Values are put into places and taken out again, in any order.  What happened is told by a list of
events, each of them a request with its answer, and from these alone it can be said what is where:
a value stays at the place that it was put to until that place is vacated (`Stays`).

* `live_attach`, `capacity_attach`, `live_detach`: what a request does to the two numbers.
* `stays_iff`: a look finds what stays, by induction on the requests.
* `live_add_vacated`, `isGreatest_capacity`: the number of values, and the number of places, which
  is the greatest number of values that there ever were.
* `tenancy_after`: all of it, after any requests.
-/

namespace SoftRadio.Slots

variable {β : Type}

/-! ## How many -/

theorem countP_attachIn (v : β) : (cells : List (Option β)) →
    (attachIn v cells).2.countP Option.isSome = cells.countP Option.isSome + 1
  | [] => rfl
  | none :: rest => by simp [attachIn]
  | some w :: rest => by
    have ih := countP_attachIn v rest
    simp only [attachIn, List.countP_cons, Option.isSome_some, if_true]
    omega

/-- A place is added only if all of them are occupied. -/
theorem length_attachIn (v : β) : (cells : List (Option β)) →
    (attachIn v cells).2.length = max cells.length (cells.countP Option.isSome + 1)
  | [] => rfl
  | none :: rest => by
    have hle : rest.countP Option.isSome ≤ rest.length := List.countP_le_length
    simp only [attachIn, List.length_cons, List.countP_cons, Option.isSome_none]
    simp only [Bool.false_eq_true, if_false]
    omega
  | some w :: rest => by
    have ih := length_attachIn v rest
    simp only [attachIn, List.length_cons, List.countP_cons, Option.isSome_some, if_true]
    omega

theorem live_attach (s : Slots β) (v : β) : (s.attach v).2.live = s.live + 1 :=
  countP_attachIn v s.cells

theorem capacity_attach (s : Slots β) (v : β) :
    (s.attach v).2.capacity = max s.capacity (s.attach v).2.live := by
  rw [live_attach]
  exact length_attachIn v s.cells

/-- Of the values, the one that is taken out is no longer counted. -/
theorem live_detach (s : Slots β) (offset : Nat) :
    (s.detach offset).2.live + (if (s.get? offset).isSome then 1 else 0) = s.live := by
  have hcells : (s.detach offset).2.live = (s.cells.set offset none).countP Option.isSome := rfl
  have hlive : s.live = s.cells.countP Option.isSome := rfl
  rw [hcells, hlive]
  by_cases hin : offset < s.cells.length
  · have hget : s.get? offset = s.cells[offset] := by
      unfold get?
      rw [List.getElem?_eq_getElem hin]
      rfl
    rw [List.countP_set hin, hget]
    by_cases hsome : (s.cells[offset]).isSome
    · have hpos : 0 < s.cells.countP Option.isSome :=
        List.countP_pos_iff.2 ⟨_, List.getElem_mem hin, hsome⟩
      simp only [hsome, if_true, Option.isSome_none, Bool.false_eq_true, if_false]
      omega
    · simp [hsome]
  · have hget : s.get? offset = none := by
      unfold get?
      rw [List.getElem?_eq_none (Nat.le_of_not_lt hin)]
      rfl
    rw [List.set_eq_of_length_le (Nat.le_of_not_lt hin), hget]
    rfl

theorem live_le_capacity (s : Slots β) : s.live ≤ s.capacity := List.countP_le_length

/-- To vacate a vacant place changes nothing, whether it is there or not. -/
theorem detach_of_vacant {s : Slots β} {offset : Nat} (h : s.get? offset = none) :
    (s.detach offset).2 = s := by
  have hcells : s.cells.set offset none = s.cells := by
    refine List.ext_getElem? fun i => ?_
    rw [List.getElem?_set]
    split
    · rename_i hi
      subst hi
      unfold get? at h
      split
      · rename_i hin
        rw [List.getElem?_eq_getElem hin] at h ⊢
        exact congrArg some h.symm
      · rename_i hout
        rw [List.getElem?_eq_none (Nat.le_of_not_lt hout)]
    · rfl
  unfold detach
  rw [hcells]

/-! ## What happened -/

/-- What can be asked. -/
inductive Request (β : Type) where
  | attach (v : β)
  | detach (offset : Nat)
  | get (offset : Nat)

/-- What was asked, with the answer to it. -/
inductive Event (β : Type) where
  | attached (v : β) (offset : Nat)
  | detached (offset : Nat) (v : Option β)
  | got (offset : Nat) (v : Option β)

/-- A value was put somewhere. -/
def Event.occupies : Event β → Bool
  | .attached .. => true
  | _ => false

/-- A value was taken out. -/
def Event.vacates : Event β → Bool
  | .detached _ v => v.isSome
  | _ => false

def serve (s : Slots β) : Request β → Event β × Slots β
  | .attach v => (.attached v (s.attach v).1, (s.attach v).2)
  | .detach offset => (.detached offset (s.detach offset).1, (s.detach offset).2)
  | .get offset => (.got offset (s.get? offset), s)

/-- The events of some requests on places that are new, and the places after them. -/
def run (requests : List (Request β)) : List (Event β) × Slots β :=
  requests.foldl (fun told q => (told.1 ++ [(told.2.serve q).1], (told.2.serve q).2)) ([], empty)

theorem run_concat (requests : List (Request β)) (q : Request β) :
    run (requests ++ [q]) = ((run requests).1 ++ [((run requests).2.serve q).1],
      ((run requests).2.serve q).2) := by
  unfold run
  rw [List.foldl_append]
  rfl

/-- Every event is the answer to a request, made when the events before it had happened. -/
theorem exists_request_of_event {requests : List (Request β)} {before after : List (Event β)}
    {e : Event β} (h : (run requests).1 = before ++ e :: after) :
    ∃ (earlier : List (Request β)) (q : Request β),
      (run earlier).1 = before ∧ ((run earlier).2.serve q).1 = e := by
  induction requests using List.reverseRecOn generalizing after with
  | nil => simp [run] at h
  | append_singleton requests q ih =>
    rw [run_concat] at h
    obtain rfl | ⟨after, last, rfl⟩ := List.eq_nil_or_concat after
    · obtain ⟨hbefore, he⟩ := List.append_inj' h rfl
      exact ⟨requests, q, hbefore, List.singleton_inj.1 he⟩
    · rw [List.concat_eq_append, ← List.cons_append, ← List.append_assoc] at h
      exact ih (List.append_inj' h rfl).1

/-! ## What stays -/

/-- A value was put to a place, and the place has not been vacated since. -/
def Stays (events : List (Event β)) (offset : Nat) (v : β) : Prop :=
  ∃ before after, events = before ++ .attached v offset :: after ∧
    ∀ w, .detached offset w ∉ after

theorem not_stays_nil (offset : Nat) (v : β) : ¬ Stays [] offset v := by
  rintro ⟨before, after, h, -⟩
  simp at h

/-- What stays is what stayed before, unless it is taken out now, and what is put there now. -/
theorem stays_concat_iff (events : List (Event β)) (e : Event β) (offset : Nat) (v : β) :
    Stays (events ++ [e]) offset v ↔
      e = .attached v offset ∨ Stays events offset v ∧ ∀ w, e ≠ .detached offset w := by
  constructor
  · rintro ⟨before, after, h, hafter⟩
    obtain rfl | ⟨after, last, rfl⟩ := List.eq_nil_or_concat after
    · obtain ⟨-, he⟩ := List.append_inj' h rfl
      exact Or.inl (List.singleton_inj.1 he)
    · rw [List.concat_eq_append] at h hafter
      rw [← List.cons_append, ← List.append_assoc] at h
      obtain ⟨hevents, he⟩ := List.append_inj' h rfl
      obtain rfl := List.singleton_inj.1 he
      refine Or.inr ⟨⟨before, after, hevents, fun w hw => ?_⟩, ?_⟩
      · exact hafter w (List.mem_append_left _ hw)
      · rintro w rfl
        exact hafter w (by simp)
  · rintro (rfl | ⟨⟨before, after, rfl, hafter⟩, he⟩)
    · exact ⟨events, [], rfl, by simp⟩
    · refine ⟨before, after ++ [e], by simp, fun w hw => ?_⟩
      rcases List.mem_append.1 hw with hw | hw
      · exact hafter w hw
      · exact he w (List.mem_singleton.1 hw).symm

theorem stays_iff (requests : List (Request β)) (offset : Nat) (v : β) :
    Stays (run requests).1 offset v ↔ (run requests).2.get? offset = some v := by
  induction requests using List.reverseRecOn with
  | nil => simp [run, not_stays_nil, empty, get?]
  | append_singleton requests q ih =>
    rw [run_concat, stays_concat_iff, ih]
    cases q with
    | attach w =>
      -- nothing stayed at the place that is chosen now
      have hfree := get?_attach_fst (run requests).2 w
      simp only [serve, get?_attach]
      by_cases ho : offset = ((run requests).2.attach w).1
      · subst ho
        simp [hfree, eq_comm]
      · simp [ho, Ne.symm ho]
    | detach other =>
      simp only [serve, get?_detach]
      by_cases ho : offset = other
      · simp [ho]
      · simp [ho, Ne.symm ho]
    | get other => simp [serve]

theorem get?_eq_none_iff (requests : List (Request β)) (offset : Nat) :
    (run requests).2.get? offset = none ↔ ∀ v, ¬ Stays (run requests).1 offset v := by
  rw [Option.eq_none_iff_forall_ne_some]
  exact forall_congr' fun v => not_congr (stays_iff requests offset v).symm

/-- What was taken out is not taken out again: between two values that a place has given back,
the second of them was put there. -/
theorem attached_between {requests : List (Request β)} {before between after : List (Event β)}
    {offset : Nat} {v w : β} (h : (run requests).1 =
      before ++ .detached offset (some v) :: (between ++ .detached offset (some w) :: after)) :
    .attached w offset ∈ between := by
  rw [← List.cons_append, ← List.append_assoc] at h
  obtain ⟨earlier, q, hevents, hserve⟩ := exists_request_of_event h
  -- the second value was there when it was asked for, so that it had been put there
  have hstays : Stays (run earlier).1 offset w := by
    rw [stays_iff]
    cases q with
    | attach u => cases hserve
    | detach other =>
      injection hserve with ho hw
      rw [← ho]
      exact hw
    | get other => cases hserve
  obtain ⟨front, rest, hsplit, hrest⟩ := hstays
  rw [hevents] at hsplit
  rcases List.append_eq_append_iff.1 hsplit with ⟨tail, hfront, htail⟩ | ⟨tail, -, htail⟩
  · cases tail with
    | nil => simp at htail
    | cons e tail =>
      rw [List.cons_append, List.cons.injEq] at htail
      rw [htail.2]
      simp
  · -- put there before the first value was taken out, it would not have stayed
    cases tail with
    | nil =>
      rw [List.nil_append, List.cons.injEq] at htail
      cases htail.1
    | cons e tail =>
      rw [List.cons_append, List.cons.injEq] at htail
      exact absurd (by rw [htail.2]; simp) (hrest (some v))

/-! ## How many there are, and were -/

/-- The values are as many as were put somewhere, less those that were taken out. -/
theorem live_add_vacated (requests : List (Request β)) :
    (run requests).2.live + (run requests).1.countP Event.vacates =
      (run requests).1.countP Event.occupies := by
  induction requests using List.reverseRecOn with
  | nil => rfl
  | append_singleton requests q ih =>
    rw [run_concat]
    simp only [List.countP_append, List.countP_singleton]
    cases q with
    | attach v =>
      simp only [serve, live_attach, Event.vacates, Event.occupies]
      simp only [Bool.false_eq_true, if_false, if_true]
      omega
    | detach offset =>
      have hlive := live_detach (run requests).2 offset
      have hgiven : ((run requests).2.detach offset).1 = (run requests).2.get? offset := rfl
      simp only [serve, Event.vacates, Event.occupies, hgiven]
      simp only [Bool.false_eq_true, if_false]
      omega
    | get offset =>
      simp only [serve, Event.vacates, Event.occupies]
      simp only [Bool.false_eq_true, if_false]
      omega

/-- The numbers of values that there were at one time or another. -/
def populations (requests : List (Request β)) : Set Nat :=
  { n | ∃ earlier, earlier <+: requests ∧ n = (run earlier).2.live }

theorem mem_populations_concat_iff (requests : List (Request β)) (q : Request β) (n : Nat) :
    n ∈ populations (requests ++ [q]) ↔
      n ∈ populations requests ∨ n = (run (requests ++ [q])).2.live := by
  constructor
  · rintro ⟨earlier, hprefix, hn⟩
    rcases List.prefix_concat_iff.1 hprefix with rfl | hprefix
    · exact Or.inr hn
    · exact Or.inl ⟨earlier, hprefix, hn⟩
  · rintro (⟨earlier, hprefix, hn⟩ | hn)
    · exact ⟨earlier, hprefix.trans (List.prefix_append _ _), hn⟩
    · exact ⟨_, List.prefix_rfl, hn⟩

/-- A request makes as many places as it takes to hold all values, and takes none away. -/
theorem capacity_serve (s : Slots β) (q : Request β) :
    (s.serve q).2.capacity = max s.capacity (s.serve q).2.live := by
  have hle := s.live_le_capacity
  cases q with
  | attach v => exact s.capacity_attach v
  | detach offset =>
    have hlive := s.live_detach offset
    have hcapacity := s.capacity_detach offset
    simp only [serve]
    omega
  | get offset =>
    simp only [serve]
    omega

theorem isGreatest_capacity (requests : List (Request β)) :
    IsGreatest (populations requests) (run requests).2.capacity := by
  induction requests using List.reverseRecOn with
  | nil =>
    refine ⟨⟨[], List.prefix_rfl, rfl⟩, ?_⟩
    rintro n ⟨earlier, hprefix, rfl⟩
    rw [List.prefix_nil.1 hprefix]
    exact le_rfl
  | append_singleton requests q ih =>
    obtain ⟨hmem, hupper⟩ := ih
    have hcapacity : (run (requests ++ [q])).2.capacity =
        max (run requests).2.capacity (run (requests ++ [q])).2.live := by
      rw [run_concat]
      exact capacity_serve _ q
    rw [hcapacity]
    constructor
    · rw [mem_populations_concat_iff]
      rcases max_choice (run requests).2.capacity (run (requests ++ [q])).2.live with hmax | hmax
      · rw [hmax]
        exact Or.inl hmem
      · exact Or.inr hmax
    · intro n hn
      rcases (mem_populations_concat_iff requests q n).1 hn with hn | rfl
      · exact (hupper hn).trans (le_max_left _ _)
      · exact le_max_right _ _

/-! ## All of it -/

/-- What some places do, as their events tell it. -/
structure Tenancy (events : List (Event β)) (s : Slots β) : Prop where
  /-- A value goes to the first place at which none stays. -/
  attach : ∀ v, IsLeast { offset | ∀ w, ¬ Stays events offset w } (s.attach v).1
  /-- What stays at a place is found there. -/
  get : ∀ offset v, s.get? offset = some v ↔ Stays events offset v
  /-- What stays at a place can be taken out. -/
  detach : ∀ offset v, (s.detach offset).1 = some v ↔ Stays events offset v
  /-- It can be taken out once. -/
  once : ∀ before between after offset v w, events =
    before ++ .detached offset (some v) :: (between ++ .detached offset (some w) :: after) →
      .attached w offset ∈ between
  /-- Where nothing stays, nothing is taken out and nothing changes. -/
  vacant : ∀ offset, (∀ v, ¬ Stays events offset v) → s.detach offset = (none, s)
  /-- Values are put in and taken out, and no others are there. -/
  live : s.live + events.countP Event.vacates = events.countP Event.occupies

/-- After any requests, what is where is what the events tell, and there are as many places as there
ever were values at one time. -/
theorem tenancy_after (requests : List (Request β)) :
    Tenancy (run requests).1 (run requests).2 ∧
      IsGreatest (populations requests) (run requests).2.capacity := by
  refine ⟨?_, isGreatest_capacity requests⟩
  constructor
  case attach =>
    intro v
    constructor
    · exact (get?_eq_none_iff requests _).1 (get?_attach_fst _ v)
    · intro offset hvacant
      refine Nat.le_of_not_lt fun hlt => ?_
      have hsome := isSome_get?_of_lt_attach _ v offset hlt
      rw [(get?_eq_none_iff requests offset).2 hvacant] at hsome
      cases hsome
  case get => exact fun offset v => (stays_iff requests offset v).symm
  case detach => exact fun offset v => (stays_iff requests offset v).symm
  case once => exact fun before between after offset v w h => attached_between h
  case vacant =>
    intro offset hvacant
    have hnone := (get?_eq_none_iff requests offset).2 hvacant
    exact Prod.ext hnone (detach_of_vacant hnone)
  case live => exact live_add_vacated requests

/-- Three values, the middle one taken out, and a fourth. -/
example : (run [.attach 'a', .attach 'b', .attach 'c', .detach 1, .attach 'd']).2.cells =
    [some 'a', some 'd', some 'c'] := rfl

end SoftRadio.Slots
