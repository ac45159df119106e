import SoftRadio.Stream.Receiver

/-!
# What a look at the mailboxes takes out

A command gets a number that is greater than every number given before it.  So whatever is in the
mailboxes of a stream and whatever the stream has seen of them, the command that was issued last
is the newest that the stream has not seen.

* `InOrder`: no mailbox of a stream holds, and the stream has not seen, a number that is still to
  be given.
* `taken_issue_of_mem`, `taken_issue_of_not_mem`: what there is to take after one more command.
* `taken_of_seen`: there is nothing to take right after a look.
-/

namespace SoftRadio

variable {α : Type}

/-- Among mailboxes with lesser numbers, the one with the greatest number is the newest. -/
theorem newestUnseen_eq_top {top : Mailbox α} (htop : top.command.isSome) (boxes : List (Mailbox α))
    (seen : List Nat) (best : Option (Mailbox α)) (hlength : boxes.length = seen.length)
    (hboxes : ∀ box ∈ boxes, box = top ∨ box.number < top.number)
    (hseen : ∀ n ∈ seen, n < top.number)
    (hbest : ∀ box, best = some box → box = top ∨ box.number < top.number)
    (hthere : top ∈ boxes ∨ best = some top) : newestUnseen boxes seen best = some top := by
  induction boxes generalizing seen best with
  | nil =>
    cases seen with
    | nil => simpa [newestUnseen] using hthere
    | cons n seen => cases hlength
  | cons box boxes ih =>
    cases seen with
    | nil => cases hlength
    | cons n seen =>
      have hlength' : boxes.length = seen.length := by simpa using hlength
      have hboxes' : ∀ b ∈ boxes, b = top ∨ b.number < top.number :=
        fun b hb => hboxes b (List.mem_cons_of_mem _ hb)
      have hseen' : ∀ m ∈ seen, m < top.number := fun m hm => hseen m (List.mem_cons_of_mem _ hm)
      have hn : n < top.number := hseen n List.mem_cons_self
      rcases hboxes box List.mem_cons_self with rfl | hlt
      · -- the newest is met: it is kept from here on
        have hunseen : ¬ (box.number = n ∨ box.command.isNone) := by
          rintro (h | h)
          · omega
          · rw [Option.isNone_iff_eq_none] at h
            rw [h] at htop
            cases htop
        unfold newestUnseen
        rw [if_neg hunseen]
        cases best with
        | none => exact ih seen _ hlength' hboxes' hseen' (by simp) (Or.inr rfl)
        | some b =>
          have hkeep : (if b.number < box.number then box else b) = box := by
            rcases hbest b rfl with rfl | hb
            · simp
            · rw [if_pos hb]
          dsimp only
          rw [hkeep]
          exact ih seen _ hlength' hboxes' hseen' (by simp) (Or.inr rfl)
      · -- another one: it is passed over, or kept for the time being
        have hne : box ≠ top := by
          rintro rfl
          omega
        have hthere' : top ∈ boxes ∨ best = some top := by
          rcases hthere with h | h
          · rcases List.mem_cons.1 h with rfl | h
            · exact absurd rfl hne
            · exact Or.inl h
          · exact Or.inr h
        unfold newestUnseen
        split
        · exact ih seen best hlength' hboxes' hseen' hbest hthere'
        · cases best with
          | none =>
            refine ih seen _ hlength' hboxes' hseen' ?_ (Or.inl ?_)
            · rintro b ⟨⟩
              exact Or.inr hlt
            · simpa using hthere'
          | some b =>
            dsimp only
            by_cases hb : b = top
            · subst hb
              rw [if_neg (by omega)]
              exact ih seen _ hlength' hboxes' hseen' (by simp) (Or.inr rfl)
            · refine ih seen _ hlength' hboxes' hseen' ?_ (Or.inl ?_)
              · rintro b' ⟨⟩
                split
                · exact Or.inr hlt
                · exact hbest b rfl
              · simpa [hb] using hthere'

/-- Nothing is newer than what has just been seen. -/
theorem newestUnseen_eq_none (boxes : List (Mailbox α)) (best : Option (Mailbox α)) :
    newestUnseen boxes (boxes.map Mailbox.number) best = best := by
  induction boxes generalizing best with
  | nil => cases best <;> rfl
  | cons box boxes ih =>
    simp only [List.map_cons, newestUnseen, true_or, if_true]
    exact ih best

variable [Scalar α]

namespace PostOffice

theorem length_issue (p : PostOffice α) (command : StreamCommand α) (now : TimeSpec α)
    (channel : Nat) : (p.issue command now channel).boxes.length = p.boxes.length := by
  simp [issue]

theorem box_issue_of_ne (p : PostOffice α) (command : StreamCommand α) (now : TimeSpec α)
    {channel other : Nat} (h : other ≠ channel) :
    (p.issue command now channel).box other = p.box other := by
  unfold box issue
  rw [List.getElem?_set_ne (Ne.symm h)]

/-- Every mailbox holds a number that has been given. -/
def Numbered (p : PostOffice α) : Prop := ∀ channel, (p.box channel).number < p.next

omit [Scalar α] in
theorem numbered_make (channels : Nat) : (make channels : PostOffice α).Numbered := by
  intro channel
  unfold box make
  rw [List.getElem?_replicate]
  split <;> simp [Mailbox.empty]

theorem Numbered.issue {p : PostOffice α} (h : p.Numbered) (command : StreamCommand α)
    (now : TimeSpec α) (channel : Nat) : (p.issue command now channel).Numbered := by
  intro other
  by_cases hc : channel < p.boxes.length
  · rw [box_issue p command now hc]
    split
    · exact Nat.lt_succ_self p.next
    · exact Nat.lt_succ_of_lt (h other)
  · have hsame : (p.issue command now channel).boxes = p.boxes :=
      List.set_eq_of_length_le (Nat.le_of_not_lt hc)
    unfold box
    rw [hsame]
    exact Nat.lt_succ_of_lt (h other)

theorem length_issueAll (p : PostOffice α) (command : StreamCommand α) (now : TimeSpec α)
    (channels : List Nat) : (p.issueAll command now channels).boxes.length = p.boxes.length := by
  induction channels generalizing p with
  | nil => rfl
  | cons c channels ih => exact (ih (p.issue command now c)).trans (p.length_issue command now c)

theorem Numbered.issueAll {p : PostOffice α} (h : p.Numbered) (command : StreamCommand α)
    (now : TimeSpec α) (channels : List Nat) : (p.issueAll command now channels).Numbered := by
  induction channels generalizing p with
  | nil => exact h
  | cons c channels ih => exact ih (h.issue command now c)

end PostOffice

namespace Receiver

/-- A stream and the mailboxes of its device are in order: its channels have mailboxes, and
whatever it has seen of them, or they hold, has a number that has been given. -/
structure InOrder (r : Receiver α) (office : PostOffice α) : Prop where
  boxes : ∀ c ∈ r.channels, c < office.boxes.length
  length : r.run.seen.length = r.channels.length
  seen : ∀ n ∈ r.run.seen, n < office.next
  numbered : office.Numbered

theorem inOrder_make {office : PostOffice α} {channels : List Nat} (board : Nat)
    (format : SampleFormat) (rate : α) (frameSize : Nat) (hn : office.Numbered)
    (hc : ∀ c ∈ channels, c < office.boxes.length) :
    (make office channels board format rate frameSize).InOrder office where
  boxes := hc
  length := by simp [make, PostOffice.numbers]
  seen := by
    intro n hmem
    obtain ⟨c, -, rfl⟩ := List.mem_map.1 hmem
    exact hn c
  numbered := hn

theorem InOrder.issue {r : Receiver α} {office : PostOffice α} (h : r.InOrder office)
    (command : StreamCommand α) (now : TimeSpec α) (channel : Nat) :
    r.InOrder (office.issue command now channel) where
  boxes := by
    intro c hc
    rw [PostOffice.length_issue]
    exact h.boxes c hc
  length := h.length
  seen n hn := Nat.lt_succ_of_lt (h.seen n hn)
  numbered := h.numbered.issue command now channel

omit [Scalar α] in
/-- A look at the mailboxes leaves all in order. -/
theorem InOrder.of_seen {r r' : Receiver α} {office : PostOffice α} (h : r.InOrder office)
    (hc : r'.channels = r.channels) (hs : r'.run.seen = office.numbers r.channels) :
    r'.InOrder office where
  boxes := by
    rw [hc]
    exact h.boxes
  length := by
    rw [hs, hc]
    simp [PostOffice.numbers]
  seen := by
    rw [hs]
    intro n hn
    obtain ⟨c, -, rfl⟩ := List.mem_map.1 hn
    exact h.numbered c
  numbered := h.numbered

/-- A command on one of the channels is what the next look takes, whatever else there is. -/
theorem taken_issue_of_mem {r : Receiver α} {office : PostOffice α} (h : r.InOrder office)
    (command : StreamCommand α) (now : TimeSpec α) {channel : Nat} (hc : channel ∈ r.channels) :
    taken r.run r.channels (office.issue command now channel) =
      some (command, Mailbox.isLate command now) := by
  have hbox := office.box_issue command now (h.boxes channel hc)
  have htop : newestUnseen (r.channels.map (office.issue command now channel).box) r.run.seen none =
      some (Mailbox.holding command now office.next) := by
    refine newestUnseen_eq_top rfl _ _ none ?_ ?_ ?_ (by simp) (Or.inl ?_)
    · rw [List.length_map, h.length]
    · intro box hmem
      obtain ⟨c, -, rfl⟩ := List.mem_map.1 hmem
      rw [hbox]
      split
      · exact Or.inl rfl
      · exact Or.inr (h.numbered c)
    · exact h.seen
    · refine List.mem_map.2 ⟨channel, hc, ?_⟩
      rw [hbox, if_pos rfl]
  unfold taken
  rw [htop]
  rfl

/-- A command elsewhere changes nothing for the stream. -/
theorem taken_issue_of_not_mem {r : Receiver α} (office : PostOffice α)
    (command : StreamCommand α) (now : TimeSpec α) {channel : Nat} (hc : channel ∉ r.channels) :
    taken r.run r.channels (office.issue command now channel) =
      taken r.run r.channels office := by
  have hsame :
      r.channels.map (office.issue command now channel).box = r.channels.map office.box := by
    refine List.map_congr_left fun c hmem => office.box_issue_of_ne command now ?_
    rintro rfl
    exact hc hmem
  unfold taken
  rw [hsame]

theorem InOrder.issueAll {r : Receiver α} {office : PostOffice α} (h : r.InOrder office)
    (command : StreamCommand α) (now : TimeSpec α) (channels : List Nat) :
    r.InOrder (office.issueAll command now channels) := by
  induction channels generalizing office with
  | nil => exact h
  | cons c channels ih => exact ih (h.issue command now c)

/-- A command on several channels is taken as a whole, if one of them is the stream's. -/
theorem taken_issueAll {r : Receiver α} {office : PostOffice α} (h : r.InOrder office)
    (command : StreamCommand α) (now : TimeSpec α) (channels : List Nat) :
    taken r.run r.channels (office.issueAll command now channels) =
      if channels.any (r.channels.contains ·) then some (command, Mailbox.isLate command now)
      else taken r.run r.channels office := by
  induction channels generalizing office with
  | nil => rfl
  | cons c channels ih =>
    show taken r.run r.channels ((office.issue command now c).issueAll command now channels) = _
    rw [ih (h.issue command now c), List.any_cons]
    by_cases hc : c ∈ r.channels
    · rw [taken_issue_of_mem h command now hc]
      simp [hc]
    · rw [taken_issue_of_not_mem office command now hc]
      simp [hc]

omit [Scalar α] in
theorem taken_of_seen {run : Run α} {channels : List Nat} {office : PostOffice α}
    (h : run.seen = office.numbers channels) : taken run channels office = none := by
  have hmap : office.numbers channels = (channels.map office.box).map Mailbox.number := by
    simp [PostOffice.numbers]
  unfold taken
  rw [h, hmap, newestUnseen_eq_none]
  rfl

end Receiver

end SoftRadio
