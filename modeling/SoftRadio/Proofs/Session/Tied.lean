import SoftRadio.Proofs.Session.Effect

/-!
# Bindings and places belong together

A handle reaches its stream by the number of a place on a device, and places are vacated and
filled again.  That no handle ever reaches the stream of another rests on one invariant,
`Tied`: on the devices that are there, every place that is held is occupied, every occupied
place is held, and by one holder only.

A holder is a handle that is bound to the place, or a free under way that has taken the binding
out of the record and not yet vacated the place.  So the invariant can be stated between the
phases of a call as well as between calls, where nothing is under way (`Held.nothing`).
-/

namespace SoftRadio.Session

variable {δ : Type} {σ : Direction → Type} {β ω : Type}

/-- Who can hold a place. -/
inductive Holder where
  | handle (handle : Nat)
  | call (number : Nat)
  deriving DecidableEq

/-- The bindings that calls under way have taken out of records, by the numbers of the calls. -/
abbrev Held : Type := Direction → Nat → Option Binding

def Held.nothing : Held := fun _ _ => none

def Held.set (held : Held) (dir : Direction) (number : Nat) (b : Option Binding) : Held :=
  fun dir' number' => if dir' = dir ∧ number' = number then b else held dir' number'

theorem Held.set_eq_self {held : Held} {dir : Direction} {number : Nat} {b : Option Binding}
    (h : held dir number = b) : held.set dir number b = held := by
  funext dir' number'
  unfold Held.set
  split
  · rename_i he
    obtain ⟨rfl, rfl⟩ := he
    exact h.symm
  · rfl

theorem Held.set_set (held : Held) (dir : Direction) (number : Nat) (b b' : Option Binding) :
    (held.set dir number b).set dir number b' = held.set dir number b' := by
  funext dir' number'
  unfold Held.set
  split <;> rfl

/-- The place that a holder holds. -/
def grip (s : Session δ σ) (held : Held) (dir : Direction) : Holder → Option Binding
  | .handle handle => s.bindingOf dir handle
  | .call number => held dir number

/-- Bindings and occupied places match, on all devices that are there. -/
structure Tied (s : Session δ σ) (held : Held) : Prop where
  known : ∀ dir x b, s.grip held dir x = some b → s.isKnown b.device
  occupied : ∀ dir x b, s.grip held dir x = some b → s.isLive b.device →
    (s.streamAt dir b).isSome
  single : ∀ dir x y b, s.grip held dir x = some b → s.grip held dir y = some b →
    s.isLive b.device → x = y
  held : ∀ dir b, (s.streamAt dir b).isSome → ∃ x, s.grip held dir x = some b
  released : ∀ dir handle, s.isReleased dir handle → s.bindingOf dir handle = none

theorem tied_initial : Tied (initial : Session δ σ) Held.nothing := by
  have hbind : ∀ dir handle, (initial : Session δ σ).bindingOf dir handle = none := by
    intro dir handle
    unfold bindingOf
    rw [row?_initial]
    rfl
  have hgrip : ∀ dir x, (initial : Session δ σ).grip Held.nothing dir x = none := by
    intro dir x
    cases x with
    | handle handle => exact hbind dir handle
    | call number => rfl
  constructor
  case known | occupied | single =>
    intros
    simp_all
  case held =>
    intro dir b h
    simp [streamAt, initial] at h
  case released =>
    intro dir handle _
    exact hbind dir handle

/-- The session in which the binding of a handle is taken away and its place vacated. -/
def unbound (s : Session δ σ) (dir : Direction) (handle : Nat) : Session δ σ :=
  (s.modifyStream dir handle fun r => { r with binding := none }).vacate dir
    (s.bindingOf dir handle)

@[simp] theorem isKnown_unbound (s : Session δ σ) (dir : Direction) (handle index : Nat) :
    (s.unbound dir handle).isKnown index = s.isKnown index := by
  simp [unbound]

@[simp] theorem isLive_unbound (s : Session δ σ) (dir : Direction) (handle index : Nat) :
    (s.unbound dir handle).isLive index = s.isLive index := by
  simp [unbound]

theorem bindingOf_unbound (s : Session δ σ) (dir : Direction) (handle : Nat)
    (dir' : Direction) (handle' : Nat) :
    (s.unbound dir handle).bindingOf dir' handle' =
      if dir' = dir ∧ handle' = handle then none else s.bindingOf dir' handle' := by
  unfold unbound
  rw [bindingOf_vacate, bindingOf_modifyStream]
  split
  · cases (s.handles.get dir').row? handle' <;> rfl
  · rfl

theorem streamAt_unbound (s : Session δ σ) (dir : Direction) (handle : Nat) (dir' : Direction)
    (b : Binding) : (s.unbound dir handle).streamAt dir' b =
      (s.vacate dir (s.bindingOf dir handle)).streamAt dir' b := by
  unfold unbound
  rw [streamAt_vacate, streamAt_vacate, streamAt_modifyStream]

namespace Tied

variable {s s' : Session δ σ} {held : Held} {dir : Direction} {handle number index : Nat}

/-- Two handles are not bound to one place of a device that is there. -/
theorem not_shared (t : Tied s held) {dir' : Direction} {handle' : Nat} {b : Binding}
    (he : ¬ (dir' = dir ∧ handle' = handle)) (hb : s.bindingOf dir' handle' = some b)
    (hl : s.isLive b.device) : ¬ (dir' = dir ∧ s.bindingOf dir handle = some b) := by
  rintro ⟨rfl, hb'⟩
  have hsame := t.single dir' (.handle handle') (.handle handle) b hb hb' hl
  cases hsame
  exact he ⟨rfl, rfl⟩

/-- Steps that only take devices away, or add devices without streams. -/
theorem frame (t : Tied s held)
    (hknown : ∀ i, s.isKnown i → s'.isKnown i)
    (hlive : ∀ i, s.isKnown i → s'.isLive i → s.isLive i)
    (hbinding : ∀ dir handle, s'.bindingOf dir handle = s.bindingOf dir handle)
    (hreleased : ∀ dir handle, s'.isReleased dir handle = s.isReleased dir handle)
    (hstream : ∀ dir b, s'.isLive b.device →
      (s'.streamAt dir b).isSome = (s.streamAt dir b).isSome) : Tied s' held := by
  have hgrip : ∀ dir x, s'.grip held dir x = s.grip held dir x := by
    intro dir x
    cases x with
    | handle handle => exact hbinding dir handle
    | call number => rfl
  constructor
  case known =>
    intro dir x b hx
    rw [hgrip] at hx
    exact hknown _ (t.known dir x b hx)
  case occupied =>
    intro dir x b hx hl
    rw [hgrip] at hx
    rw [hstream dir b hl]
    exact t.occupied dir x b hx (hlive _ (t.known dir x b hx) hl)
  case single =>
    intro dir x y b hx hy hl
    rw [hgrip] at hx hy
    exact t.single dir x y b hx hy (hlive _ (t.known dir x b hx) hl)
  case held =>
    intro dir b hb
    rw [hstream dir b (isLive_of_streamAt hb)] at hb
    obtain ⟨x, hx⟩ := t.held dir b hb
    exact ⟨x, by rw [hgrip, hx]⟩
  case released =>
    intro dir handle hr
    rw [hreleased] at hr
    rw [hbinding]
    exact t.released dir handle hr

/-- Steps that change no binding and no device. -/
theorem frame_of_same (t : Tied s held) (hknown : ∀ i, s'.isKnown i = s.isKnown i)
    (hlive : ∀ i, s'.isLive i = s.isLive i)
    (hbinding : ∀ dir handle, s'.bindingOf dir handle = s.bindingOf dir handle)
    (hreleased : ∀ dir handle, s'.isReleased dir handle = s.isReleased dir handle)
    (hstream : ∀ dir b, (s'.streamAt dir b).isSome = (s.streamAt dir b).isSome) : Tied s' held :=
  t.frame (fun i hi => (hknown i).trans hi) (fun i _ hi => (hlive i).symm.trans hi) hbinding
    hreleased fun dir b _ => hstream dir b

theorem of_sameView (t : Tied s held) (h : SameView s s') : Tied s' held :=
  t.frame_of_same h.known h.live h.binding h.released fun dir b => by rw [h.stream]

theorem of_streamPut {b : Binding} {device : δ} {v v' : σ dir} (t : Tied s held)
    (hv : s.streamAt dir b = some v) (h : StreamPut s s' dir b device v') : Tied s' held := by
  refine t.frame_of_same h.known h.live h.binding h.released fun dir' b' => ?_
  by_cases hb : dir' = dir ∧ b' = b
  · obtain ⟨rfl, rfl⟩ := hb
    rw [h.self, hv]
    rfl
  · rw [h.other dir' b' hb]

theorem addDevice (t : Tied s held) (device : δ) : Tied (s.addDevice device).2 held := by
  refine t.frame ?_ ?_ (fun _ _ => by simp) (fun _ _ => by simp) (fun _ _ _ => by simp)
  · intro i hi
    rw [isKnown_addDevice, hi]
    simp
  · intro i hi hl
    rw [isLive_addDevice] at hl
    have hne : i ≠ s.devices.next := by
      rintro rfl
      rw [isKnown_next] at hi
      cases hi
    simpa [hne] using hl

theorem freeDevice (t : Tied s held) (index : Nat) : Tied (s.freeDevice index).2 held := by
  refine t.frame (fun i hi => by simpa using hi) ?_ (fun _ _ => by simp) (fun _ _ => by simp) ?_
  · intro i _ hl
    rw [isLive_freeDevice] at hl
    simp_all
  · intro dir b hl
    rw [isLive_freeDevice] at hl
    have hne : b.device ≠ index := by
      rintro rfl
      simp at hl
    rw [streamAt_freeDevice, if_neg hne]

theorem makeStream (t : Tied s held) (dir : Direction) : Tied (s.makeStream dir).2 held :=
  t.frame_of_same (fun _ => by simp) (fun _ => by simp) (fun _ _ => by simp) (fun _ _ => by simp)
    fun _ _ => by simp

theorem unlistStream (t : Tied s held) (dir : Direction) (handle : Nat) :
    Tied (s.unlistStream dir handle).2 held :=
  t.frame_of_same (fun _ => by simp) (fun _ => by simp) (fun _ _ => by simp) (fun _ _ => by simp)
    fun _ _ => by simp

theorem clear (t : Tied s held) : Tied s.clear held := by
  refine t.frame (fun i hi => by simpa using hi) ?_ (fun _ _ => by simp) (fun _ _ => by simp) ?_
  · intro i _ hl
    simp at hl
  · intro dir b hl
    simp at hl

/-- A call takes the binding out of a record and holds it instead of the handle. -/
theorem handOver (t : Tied s held) (hfree : held dir number = none)
    (hknown : ∀ i, s'.isKnown i = s.isKnown i) (hlive : ∀ i, s'.isLive i = s.isLive i)
    (hstream : ∀ dir' b, s'.streamAt dir' b = s.streamAt dir' b)
    (hbinding : ∀ dir' handle', s'.bindingOf dir' handle' =
      if dir' = dir ∧ handle' = handle then none else s.bindingOf dir' handle')
    (hreleased : ∀ dir' handle', ¬ (dir' = dir ∧ handle' = handle) →
      s'.isReleased dir' handle' = s.isReleased dir' handle') :
    Tied s' (held.set dir number (s.bindingOf dir handle)) := by
  -- a holder after the step holds what some holder held before it
  have hback : ∀ dir' x b,
      s'.grip (held.set dir number (s.bindingOf dir handle)) dir' x = some b →
      (dir' = dir ∧ x = .call number ∧ s.grip held dir' (.handle handle) = some b) ∨
      (¬ (dir' = dir ∧ x = .call number) ∧ ¬ (dir' = dir ∧ x = .handle handle) ∧
        s.grip held dir' x = some b) := by
    intro dir' x b hx
    cases x with
    | handle h =>
      simp only [grip, hbinding] at hx
      split at hx
      · cases hx
      · right
        simp_all [grip]
    | call c =>
      simp only [grip, Held.set] at hx
      split at hx
      · left
        simp_all [grip]
      · right
        simp_all [grip]
  constructor
  case known =>
    intro dir' x b hx
    rw [hknown]
    rcases hback dir' x b hx with ⟨-, -, h⟩ | ⟨-, -, h⟩
    · exact t.known _ _ _ h
    · exact t.known _ _ _ h
  case occupied =>
    intro dir' x b hx hl
    rw [hlive] at hl
    rw [hstream]
    rcases hback dir' x b hx with ⟨-, -, h⟩ | ⟨-, -, h⟩
    · exact t.occupied _ _ _ h hl
    · exact t.occupied _ _ _ h hl
  case single =>
    intro dir' x y b hx hy hl
    rw [hlive] at hl
    rcases hback dir' x b hx with ⟨hd, rfl, h⟩ | ⟨-, hnx, h⟩ <;>
      rcases hback dir' y b hy with ⟨hd', rfl, h'⟩ | ⟨-, hny, h'⟩
    · rfl
    · exact absurd ⟨hd, (t.single _ _ _ _ h h' hl).symm⟩ hny
    · exact absurd ⟨hd', t.single _ _ _ _ h h' hl⟩ hnx
    · exact t.single _ _ _ _ h h' hl
  case held =>
    intro dir' b hb
    rw [hstream] at hb
    obtain ⟨x, hx⟩ := t.held dir' b hb
    cases x with
    | handle h =>
      by_cases hh : dir' = dir ∧ h = handle
      · obtain ⟨rfl, rfl⟩ := hh
        exact ⟨.call number, by simpa [grip, Held.set] using hx⟩
      · exact ⟨.handle h, by simpa [grip, hbinding, hh] using hx⟩
    | call c =>
      have hc : ¬ (dir' = dir ∧ c = number) := by
        rintro ⟨rfl, rfl⟩
        simp [grip, hfree] at hx
      exact ⟨.call c, by simpa [grip, Held.set, hc] using hx⟩
  case released =>
    intro dir' handle' hr
    rw [hbinding]
    split
    · rfl
    · rename_i hne
      rw [hreleased dir' handle' hne] at hr
      exact t.released dir' handle' hr

/-- Second phase of a free. -/
theorem releaseStream (t : Tied s held) (hfree : held dir number = none) (handle : Nat) :
    Tied (s.releaseStream dir handle).2
      (held.set dir number (s.releaseStream dir handle).1) := by
  rw [releaseStream_fst]
  refine t.handOver hfree (fun _ => by simp) (fun _ => by simp) (fun _ _ => by simp)
    (bindingOf_releaseStream s dir handle) fun dir' handle' hne => ?_
  rw [isReleased_releaseStream, if_neg hne]

/-- Third phase of a free. -/
theorem vacate (t : Tied s held) (dir : Direction) (number : Nat) :
    Tied (s.vacate dir (held dir number)) (held.set dir number none) := by
  have hback : ∀ dir' x b,
      (s.vacate dir (held dir number)).grip (held.set dir number none) dir' x = some b →
      ¬ (dir' = dir ∧ x = .call number) ∧ s.grip held dir' x = some b := by
    intro dir' x b hx
    cases x with
    | handle h => exact ⟨by simp, by simpa [grip] using hx⟩
    | call c =>
      simp only [grip, Held.set] at hx
      split at hx
      · cases hx
      · simp_all [grip]
  constructor
  case known =>
    intro dir' x b hx
    rw [isKnown_vacate]
    exact t.known _ _ _ (hback dir' x b hx).2
  case occupied =>
    intro dir' x b hx hl
    rw [isLive_vacate] at hl
    obtain ⟨hne, hold⟩ := hback dir' x b hx
    have hkeep : ¬ (dir' = dir ∧ held dir number = some b) := by
      rintro ⟨rfl, hb⟩
      exact hne ⟨rfl, t.single _ _ (.call number) _ hold hb hl⟩
    rw [streamAt_vacate, if_neg hkeep]
    exact t.occupied _ _ _ hold hl
  case single =>
    intro dir' x y b hx hy hl
    rw [isLive_vacate] at hl
    exact t.single _ _ _ _ (hback dir' x b hx).2 (hback dir' y b hy).2 hl
  case held =>
    intro dir' b hb
    rw [streamAt_vacate] at hb
    split at hb
    · cases hb
    · rename_i hne
      obtain ⟨x, hx⟩ := t.held dir' b hb
      refine ⟨x, ?_⟩
      cases x with
      | handle h => simpa [grip] using hx
      | call c =>
        have hc : ¬ (dir' = dir ∧ c = number) := by
          rintro ⟨rfl, rfl⟩
          exact hne ⟨rfl, hx⟩
        simpa [grip, Held.set, hc] using hx
  case released =>
    intro dir' handle' hr
    rw [isReleased_vacate] at hr
    rw [bindingOf_vacate]
    exact t.released dir' handle' hr

/-- Taking a binding away and vacating its place in one go. -/
theorem unbind (t : Tied s held) (hfree : held dir number = none) (handle : Nat) :
    Tied (s.unbound dir handle) held := by
  have h : Tied (s.modifyStream dir handle fun r => { r with binding := none })
      (held.set dir number (s.bindingOf dir handle)) := by
    refine t.handOver hfree (fun _ => rfl) (fun _ => rfl) (fun _ _ => rfl) ?_ ?_
    · intro dir' handle'
      rw [bindingOf_modifyStream]
      split
      · cases (s.handles.get dir').row? handle' <;> rfl
      · rfl
    · intro dir' handle' hne
      rw [isReleased_modifyStream, if_neg hne]
  have h' := h.vacate dir number
  rw [Held.set_set, Held.set_eq_self hfree] at h'
  simpa [Held.set, unbound] using h'

/-- A commit that goes through.  The place it takes was vacant, so nobody held it. -/
theorem of_committed {offset : Nat} {stream : σ dir} (t : Tied s held)
    (hfree : held dir number = none) (hk : s.isKnown index)
    (hr : s.isReleased dir handle = false)
    (h : Committed s s' dir index handle offset stream) : Tied s' held := by
  have t₁ := t.unbind hfree handle
  have hback : ∀ dir' x b, s'.grip held dir' x = some b →
      (dir' = dir ∧ x = .handle handle ∧ b = ⟨index, offset⟩) ∨
      (¬ (dir' = dir ∧ x = .handle handle) ∧
        (s.unbound dir handle).grip held dir' x = some b) := by
    intro dir' x b hx
    cases x with
    | handle c =>
      simp only [grip, h.binding] at hx
      split at hx
      · left
        simp_all
      · rename_i hne
        right
        refine ⟨by simpa using hne, ?_⟩
        simp only [grip]
        rw [bindingOf_unbound, if_neg hne, hx]
    | call c => exact Or.inr ⟨by simp, hx⟩
  have hfresh : ∀ x, (s.unbound dir handle).grip held dir x = some ⟨index, offset⟩ →
      s.isLive index = false := by
    intro x hx
    cases hl : s.isLive index with
    | false => rfl
    | true =>
      have ho := t₁.occupied dir x _ hx (by simpa using hl)
      rw [streamAt_unbound, h.vacant] at ho
      cases ho
  constructor
  case known =>
    intro dir' x b hx
    rw [h.known]
    rcases hback dir' x b hx with ⟨-, -, rfl⟩ | ⟨-, hx'⟩
    · exact hk
    · simpa using t₁.known _ _ _ hx'
  case occupied =>
    intro dir' x b hx hl
    rw [h.live] at hl
    rcases hback dir' x b hx with ⟨rfl, -, rfl⟩ | ⟨-, hx'⟩
    · rw [h.self hl]
      rfl
    · have hne : ¬ (dir' = dir ∧ b = ⟨index, offset⟩) := by
        rintro ⟨rfl, rfl⟩
        rw [hfresh x hx'] at hl
        cases hl
      rw [h.other dir' b hne, ← streamAt_unbound]
      exact t₁.occupied _ _ _ hx' (by simpa using hl)
  case single =>
    intro dir' x y b hx hy hl
    rw [h.live] at hl
    rcases hback dir' x b hx with ⟨rfl, rfl, rfl⟩ | ⟨-, hx'⟩ <;>
      rcases hback _ y _ hy with ⟨hd, rfl, hb⟩ | ⟨-, hy'⟩
    · rfl
    · rw [hfresh y hy'] at hl
      cases hl
    · subst hd hb
      rw [hfresh x hx'] at hl
      cases hl
    · exact t₁.single _ _ _ _ hx' hy' (by simpa using hl)
  case held =>
    intro dir' b hb
    by_cases hp : dir' = dir ∧ b = ⟨index, offset⟩
    · obtain ⟨rfl, rfl⟩ := hp
      exact ⟨.handle handle, by simp [grip, h.binding]⟩
    · rw [h.other dir' b hp, ← streamAt_unbound] at hb
      obtain ⟨x, hx⟩ := t₁.held dir' b hb
      refine ⟨x, ?_⟩
      cases x with
      | handle c =>
        simp only [grip] at hx ⊢
        rw [bindingOf_unbound] at hx
        rw [h.binding]
        split at hx
        · cases hx
        · rename_i hne
          rw [if_neg hne, hx]
      | call c => exact hx
  case released =>
    intro dir' handle' hrel
    rw [h.released] at hrel
    rw [h.binding]
    split
    · rename_i he
      obtain ⟨rfl, rfl⟩ := he
      rw [hr] at hrel
      cases hrel
    · exact t.released dir' handle' hrel

/-- Last phase of an attach, however it ends. -/
theorem commit (t : Tied s held) (hfree : held dir number = none) (hk : s.isKnown index)
    (handle : Nat) (stream : σ dir) : Tied (s.commit dir index handle stream).2 held := by
  rcases commit_cases s dir index handle stream hk with ⟨-, h⟩ | ⟨-, h⟩ | ⟨hr, offset, s', h, hc⟩
  · rw [h]
    exact t
  · rw [h]
    exact t
  · rw [h]
    exact t.of_committed hfree hk hr hc

end Tied

end SoftRadio.Session
