import Mathlib.Data.Set.Function
import SoftRadio.Proofs.Session.Interleaving
import SoftRadio.Proofs.Session.Tied

/-!
# No place is leaked or shared

The invariant `Traffic.Sound` of all runs has two parts: bindings and places belong together
(`Tied`, where a free under way holds what it has taken out of a record), and every handle that
cannot be named any more is accounted for (`Traffic.Accounted`).

* `sound_step`, `sound_run`: every phase, and so every run, keeps the invariant.
* `isReleased_run`: a handle that was released stays released.
* `quiescent_bijOn_and_commit_refused`: whenever nothing is under way, the bindings of the
  handles and the occupied places of a device correspond one to one; and an attach whose handle
  was freed meanwhile is refused and occupies nothing.
-/

namespace SoftRadio.Session

variable {σ : Direction → Type}

/-- What a call under way has taken out of a record. -/
def Underway.holds (dir : Direction) : Underway σ → Option Binding
  | .released dir' b => if dir' = dir then b else none
  | _ => none

/-- Whether a call under way is an attach of the handle to the device. -/
def Underway.Attaches (dir : Direction) (index handle : Nat) : Underway σ → Prop
  | .building dir' index' handle' => dir' = dir ∧ index' = index ∧ handle' = handle
  | .built dir' index' handle' _ => dir' = dir ∧ index' = index ∧ handle' = handle
  | _ => False

namespace Traffic

variable {δ : Type}

def held (t : Traffic δ σ) : Held := fun dir call =>
  (t.underway call).bind (Underway.holds dir)

/-- An attach of the handle to the device is under way. -/
def Attaching (t : Traffic δ σ) (dir : Direction) (index handle : Nat) : Prop :=
  ∃ call u, t.underway call = some u ∧ u.Attaches dir index handle

/-- A handle that is bound, and can get bound, to devices only that are gone. -/
structure Stale (t : Traffic δ σ) (dir : Direction) (handle : Nat) : Prop where
  bound : ∀ b, t.session.bindingOf dir handle = some b → t.session.isLive b.device = false
  attaching : ∀ index, t.Attaching dir index handle → t.session.isLive index = false

/-- Every call under way is about something that was given out, and a handle that can no longer
be named was either released, or is about to be, or has nothing to do with a device that is
there. -/
structure Accounted (t : Traffic δ σ) : Prop where
  target : ∀ dir index handle, t.Attaching dir index handle → t.session.isKnown index
  token : ∀ call dir handle, t.underway call = some (.unlisted dir handle) →
    t.session.isIssued dir handle
  unlisted : ∀ dir handle, t.session.isIssued dir handle →
    t.session.isListed dir handle = false → t.session.isReleased dir handle = false →
    (∃ call, t.underway call = some (.unlisted dir handle)) ∨ t.Stale dir handle

/-- The invariant of all runs. -/
structure Sound (t : Traffic δ σ) : Prop where
  tied : Tied t.session t.held
  accounted : t.Accounted

@[simp] theorem held_on (t : Traffic δ σ) (s : Session δ σ) : (t.on s).held = t.held := rfl

/-- A call that holds nothing before and after takes nothing out. -/
theorem held_put (t : Traffic δ σ) {call : Nat} {u : Option (Underway σ)}
    (h : ∀ dir, u.bind (Underway.holds dir) = t.held dir call) :
    (t.put call u).held = t.held := by
  funext dir number
  show ((t.put call u).underway number).bind _ = _
  by_cases hn : number = call
  · subst hn
    rw [underway_put_self, h]
  · rw [underway_put_of_ne t u hn]
    rfl

theorem held_put_released (t : Traffic δ σ) {call : Nat} {dir : Direction} {b : Option Binding}
    (h : ∀ dir, t.held dir call = none) :
    (t.put call (some (.released dir b))).held = t.held.set dir call b := by
  funext dir' number
  show ((t.put call _).underway number).bind _ = _
  unfold Held.set
  by_cases hn : number = call
  · subst hn
    rw [underway_put_self]
    by_cases hd : dir' = dir
    · subst hd
      simp [Underway.holds]
    · rw [if_neg fun h => hd h.1, h]
      simp [Underway.holds, Ne.symm hd]
  · rw [underway_put_of_ne t _ hn, if_neg fun h => hn h.2]
    rfl

theorem held_put_none (t : Traffic δ σ) {call : Nat} {dir : Direction} {b : Option Binding}
    (h : t.underway call = some (.released dir b)) :
    (t.put call none).held = t.held.set dir call none := by
  funext dir' number
  show ((t.put call none).underway number).bind _ = _
  unfold Held.set
  by_cases hn : number = call
  · subst hn
    rw [underway_put_self]
    by_cases hd : dir' = dir
    · rw [if_pos ⟨hd, rfl⟩]
      rfl
    · rw [if_neg fun h => hd h.1]
      simp [held, h, Underway.holds, Ne.symm hd]
  · rw [underway_put_of_ne t _ hn, if_neg fun h => hn h.2]
    rfl

theorem attaching_put {t : Traffic δ σ} {call : Nat} {u : Option (Underway σ)} {dir : Direction}
    {index handle : Nat} (h : (t.put call u).Attaching dir index handle) :
    (∃ v, u = some v ∧ v.Attaches dir index handle) ∨ t.Attaching dir index handle := by
  obtain ⟨number, v, hv, ha⟩ := h
  by_cases hn : number = call
  · subst hn
    rw [underway_put_self] at hv
    exact Or.inl ⟨v, hv, ha⟩
  · rw [underway_put_of_ne t u hn] at hv
    exact Or.inr ⟨number, v, hv, ha⟩

/-- Another session under the same calls.  Handles may get bound to what an attach under way is
about, devices may go, and what is new is listed. -/
theorem Accounted.on {t : Traffic δ σ} {s : Session δ σ} (h : t.Accounted)
    (htied : Tied t.session t.held)
    (hknown : ∀ i, t.session.isKnown i → s.isKnown i)
    (hlive : ∀ i, t.session.isKnown i → s.isLive i → t.session.isLive i)
    (hissued : ∀ dir handle, t.session.isIssued dir handle → s.isIssued dir handle)
    (hlisted : ∀ dir handle, s.isIssued dir handle → s.isListed dir handle = false →
      t.session.isIssued dir handle ∧ t.session.isListed dir handle = false)
    (hreleased : ∀ dir handle, s.isReleased dir handle = t.session.isReleased dir handle)
    (hbinding : ∀ dir handle b, s.bindingOf dir handle = some b →
      t.session.bindingOf dir handle = some b ∨ t.Attaching dir b.device handle) :
    (t.on s).Accounted := by
  have hdead : ∀ i, t.session.isKnown i → t.session.isLive i = false → s.isLive i = false := by
    intro i hk hl
    cases hs : s.isLive i with
    | false => rfl
    | true => rw [hlive i hk hs] at hl; cases hl
  constructor
  case target =>
    intro dir index handle ha
    exact hknown _ (h.target dir index handle ha)
  case token =>
    intro call dir handle hu
    exact hissued _ _ (h.token call dir handle hu)
  case unlisted =>
    intro dir handle hi hl hr
    obtain ⟨hi', hl'⟩ := hlisted dir handle hi hl
    have hr' : t.session.isReleased dir handle = false := by
      rw [← hreleased]
      exact hr
    rcases h.unlisted dir handle hi' hl' hr' with htoken | hstale
    · exact Or.inl htoken
    · right
      constructor
      case bound =>
        intro b hb
        rcases hbinding dir handle b hb with hb' | ha
        · exact hdead _ (htied.known dir (.handle handle) b hb') (hstale.bound b hb')
        · exact hdead _ (h.target dir _ handle ha) (hstale.attaching _ ha)
      case attaching =>
        intro index ha
        exact hdead _ (h.target dir index handle ha) (hstale.attaching index ha)

/-- The same for a session in which handles are listed as before and devices are there as before. -/
theorem Accounted.on_of_same {t : Traffic δ σ} {s : Session δ σ} (h : t.Accounted)
    (htied : Tied t.session t.held)
    (hknown : ∀ i, s.isKnown i = t.session.isKnown i)
    (hlive : ∀ i, s.isLive i = t.session.isLive i)
    (hissued : ∀ dir handle, s.isIssued dir handle = t.session.isIssued dir handle)
    (hlisted : ∀ dir handle, s.isListed dir handle = t.session.isListed dir handle)
    (hreleased : ∀ dir handle, s.isReleased dir handle = t.session.isReleased dir handle)
    (hbinding : ∀ dir handle b, s.bindingOf dir handle = some b →
      t.session.bindingOf dir handle = some b ∨ t.Attaching dir b.device handle) :
    (t.on s).Accounted := by
  refine h.on htied (fun i hi => (hknown i).trans hi) (fun i _ hi => (hlive i).symm.trans hi)
    (fun dir i hi => (hissued dir i).trans hi) ?_ hreleased hbinding
  intro dir i hi hl
  exact ⟨(hissued dir i).symm.trans hi, (hlisted dir i).symm.trans hl⟩

/-- Another stage of an attach, or the end of a call. -/
theorem Accounted.put {t : Traffic δ σ} {call : Nat} {u : Option (Underway σ)} (h : t.Accounted)
    (hattach : ∀ v, u = some v → ∀ dir index handle, v.Attaches dir index handle →
      t.Attaching dir index handle ∨
        (t.session.isKnown index ∧ t.session.isListed dir handle))
    (hold : ∀ dir handle, t.underway call ≠ some (.unlisted dir handle))
    (hnew : ∀ dir handle, u ≠ some (.unlisted dir handle)) : (t.put call u).Accounted := by
  constructor
  case target =>
    intro dir index handle ha
    rcases attaching_put ha with ⟨v, hv, ha'⟩ | ha'
    · rcases hattach v hv dir index handle ha' with ha' | ⟨hk, -⟩
      · exact h.target dir index handle ha'
      · exact hk
    · exact h.target dir index handle ha'
  case token =>
    intro number dir handle hu
    by_cases hn : number = call
    · subst hn
      rw [underway_put_self] at hu
      exact absurd hu (hnew dir handle)
    · rw [underway_put_of_ne t u hn] at hu
      exact h.token number dir handle hu
  case unlisted =>
    intro dir handle hi hl hr
    rcases h.unlisted dir handle hi hl hr with ⟨number, hu⟩ | hstale
    · left
      refine ⟨number, ?_⟩
      have hn : number ≠ call := by
        rintro rfl
        exact hold dir handle hu
      rw [underway_put_of_ne t u hn]
      exact hu
    · right
      refine ⟨hstale.bound, fun index ha => ?_⟩
      rcases attaching_put ha with ⟨v, hv, ha'⟩ | ha'
      · rcases hattach v hv dir index handle ha' with ha' | ⟨-, hl'⟩
        · exact hstale.attaching index ha'
        · rw [session_put] at hl
          rw [hl] at hl'
          cases hl'
      · exact hstale.attaching index ha'

/-- A stage of a free: no attach begins, and a handle that can no longer be named is in the hands
of the call, or was so before. -/
theorem Accounted.free {t : Traffic δ σ} {s : Session δ σ} {call : Nat} {u : Option (Underway σ)}
    (h : t.Accounted)
    (hknown : ∀ i, s.isKnown i = t.session.isKnown i)
    (hlive : ∀ i, s.isLive i = t.session.isLive i)
    (hissued : ∀ dir handle, s.isIssued dir handle = t.session.isIssued dir handle)
    (hbinding : ∀ dir handle b, s.bindingOf dir handle = some b →
      t.session.bindingOf dir handle = some b)
    (hattach : ∀ v, u = some v → ∀ dir index handle, ¬ v.Attaches dir index handle)
    (htoken : ∀ dir handle, u = some (.unlisted dir handle) → t.session.isIssued dir handle)
    (hunlisted : ∀ dir handle, s.isListed dir handle = false → s.isReleased dir handle = false →
      u = some (.unlisted dir handle) ∨
        (t.session.isListed dir handle = false ∧ t.session.isReleased dir handle = false ∧
          t.underway call ≠ some (.unlisted dir handle))) : ((t.on s).put call u).Accounted := by
  have hattaching : ∀ dir index handle, ((t.on s).put call u).Attaching dir index handle →
      t.Attaching dir index handle := by
    intro dir index handle ha
    rcases attaching_put ha with ⟨v, hv, ha'⟩ | ha'
    · exact absurd ha' (hattach v hv dir index handle)
    · exact ha'
  constructor
  case target =>
    intro dir index handle ha
    show s.isKnown index
    rw [hknown]
    exact h.target dir index handle (hattaching dir index handle ha)
  case token =>
    intro number dir handle hu
    show s.isIssued dir handle
    rw [hissued]
    by_cases hn : number = call
    · subst hn
      rw [underway_put_self] at hu
      exact htoken dir handle hu
    · rw [underway_put_of_ne _ u hn] at hu
      exact h.token number dir handle hu
  case unlisted =>
    intro dir handle hi hl hr
    rcases hunlisted dir handle hl hr with hu | ⟨hl', hr', hne⟩
    · exact Or.inl ⟨call, by rw [underway_put_self, hu]⟩
    · have hi' : t.session.isIssued dir handle := by
        rw [← hissued]
        exact hi
      rcases h.unlisted dir handle hi' hl' hr' with ⟨number, hu⟩ | hstale
      · left
        refine ⟨number, ?_⟩
        have hn : number ≠ call := by
          rintro rfl
          exact hne hu
        rw [underway_put_of_ne _ u hn]
        exact hu
      · right
        constructor
        case bound =>
          intro b hb
          show s.isLive b.device = false
          rw [hlive]
          exact hstale.bound b (hbinding dir handle b hb)
        case attaching =>
          intro index ha
          show s.isLive index = false
          rw [hlive]
          exact hstale.attaching index (hattaching dir index handle ha)

/-- Steps that are not seen at all. -/
theorem Sound.on_of_sameView {t : Traffic δ σ} {s : Session δ σ} (h : t.Sound)
    (hv : SameView t.session s) : (t.on s).Sound := by
  refine ⟨h.tied.of_sameView hv, ?_⟩
  exact h.accounted.on_of_same h.tied hv.known hv.live hv.issued hv.listed hv.released
    fun dir i b hb => Or.inl ((hv.binding dir i).symm.trans hb)

theorem sound_initial : (initial : Traffic δ σ).Sound := by
  have hissued : ∀ dir handle, (Session.initial : Session δ σ).isIssued dir handle = false := by
    intro dir handle
    unfold isIssued
    rw [row?_initial]
    rfl
  constructor
  case tied => exact tied_initial
  case accounted =>
    constructor
    case target =>
      rintro dir index handle ⟨call, u, hu, -⟩
      cases hu
    case token =>
      intro call dir handle hu
      cases hu
    case unlisted =>
      intro dir handle hi
      change (Session.initial : Session δ σ).isIssued dir handle = true at hi
      rw [hissued] at hi
      cases hi

/-! ## The phases, one by one -/

theorem sound_makeDevice {t : Traffic δ σ} (h : t.Sound) (device : δ) :
    (t.step (.makeDevice device)).Sound := by
  refine ⟨h.tied.addDevice device, ?_⟩
  refine h.accounted.on h.tied ?_ ?_ (fun _ _ => id) (fun _ _ hi hl => ⟨hi, hl⟩)
    (fun _ _ => rfl) (fun _ _ _ hb => Or.inl hb)
  · intro i hi
    rw [isKnown_addDevice, hi]
    simp
  · intro i hi hl
    rw [isLive_addDevice] at hl
    have hne : i ≠ t.session.devices.next := by
      rintro rfl
      rw [isKnown_next] at hi
      cases hi
    simpa [hne] using hl

theorem sound_freeDevice {t : Traffic δ σ} (h : t.Sound) (index : Nat) :
    (t.step (.freeDevice index)).Sound := by
  refine ⟨h.tied.freeDevice index, ?_⟩
  refine h.accounted.on h.tied ?_ ?_ ?_ ?_ ?_ ?_
  · intro i hi
    simpa using hi
  · intro i _ hl
    rw [isLive_freeDevice] at hl
    simp_all
  · intro dir i hi
    simpa using hi
  · intro dir i hi hl
    exact ⟨by simpa using hi, by simpa using hl⟩
  · intro dir i
    simp
  · intro dir i b hb
    left
    simpa using hb

theorem sound_makeStream {t : Traffic δ σ} (h : t.Sound) (dir : Direction) :
    (t.step (.makeStream dir)).Sound := by
  refine ⟨h.tied.makeStream dir, ?_⟩
  refine h.accounted.on h.tied (fun _ => id) (fun _ _ => id) ?_ ?_ ?_ ?_
  · intro dir' i hi
    rw [isIssued_makeStream, hi]
    simp
  · intro dir' i hi hl
    rw [isListed_makeStream, Bool.or_eq_false_iff] at hl
    rw [isIssued_makeStream, hl.1, Bool.false_or] at hi
    exact ⟨hi, hl.2⟩
  · intro dir' i
    simp
  · intro dir' i b hb
    left
    simpa using hb

theorem sound_startAttach {t : Traffic δ σ} (h : t.Sound) (call : Nat) (dir : Direction)
    (index handle : Nat) : (t.step (.startAttach call dir index handle)).Sound := by
  simp only [step]
  split
  · rename_i hu hresolve
    obtain ⟨hlive, hlisted⟩ := resolveAttach_eq_ok_iff.1 hresolve
    constructor
    case tied =>
      rw [held_put t fun dir => by simp [held, hu, Underway.holds]]
      exact h.tied
    case accounted =>
      refine h.accounted.put ?_ (by simp [hu]) (by simp)
      intro v hv dir' index' handle' ha
      cases hv
      obtain ⟨rfl, rfl, rfl⟩ := ha
      exact Or.inr ⟨isKnown_of_isLive hlive, hlisted⟩
  · exact h

theorem sound_endBuild {t : Traffic δ σ} (h : t.Sound) (call : Nat)
    (built : (dir : Direction) → Except Fault (σ dir)) : (t.step (.endBuild call built)).Sound := by
  simp only [step]
  split
  · rename_i dir index handle hu
    have h' := h.on_of_sameView
      (sameView_recordOnDevice t.session index (guardedResult (built dir)))
    constructor
    case tied =>
      rw [held_put _ fun dir' => by split <;> simp [held, hu, Underway.holds]]
      exact h'.tied
    case accounted =>
      refine h'.accounted.put ?_ (by simp [hu]) (by intros; split <;> simp)
      intro v hv dir' index' handle' ha
      left
      split at hv
      · cases hv
        exact ⟨call, _, hu, ha⟩
      · cases hv
  · exact h

/-- The attach under way is what gives the handle its new binding. -/
theorem sound_commit {t : Traffic δ σ} (h : t.Sound) (call : Nat) :
    (t.step (.commit call)).Sound := by
  simp only [step]
  split
  · rename_i dir index handle stream hu
    have hattaching : t.Attaching dir index handle := ⟨call, _, hu, rfl, rfl, rfl⟩
    have hk := h.accounted.target dir index handle hattaching
    have hfree : t.held dir call = none := by simp [held, hu, Underway.holds]
    have htied := h.tied.commit hfree hk handle stream
    have haccounted : (t.on (t.session.commit dir index handle stream).2).Accounted := by
      rcases commit_cases t.session dir index handle stream hk with
        ⟨-, hc⟩ | ⟨-, hc⟩ | ⟨-, offset, s', hc, hs⟩
      · rw [hc]
        exact h.accounted
      · rw [hc]
        exact h.accounted
      · rw [hc]
        refine h.accounted.on_of_same h.tied hs.known hs.live hs.issued hs.listed hs.released ?_
        intro dir' i b hb
        rw [hs.binding] at hb
        split at hb
        · rename_i he
          obtain ⟨rfl, rfl⟩ := he
          cases hb
          exact Or.inr hattaching
        · exact Or.inl hb
    constructor
    case tied =>
      rw [held_put _ fun dir' => by simp [held, hu, Underway.holds]]
      exact htied
    case accounted =>
      exact haccounted.put (by simp) (by simp [hu]) (by simp)
  · exact h

theorem sound_unlist {t : Traffic δ σ} (h : t.Sound) (call : Nat) (dir : Direction)
    (handle : Nat) : (t.step (.unlist call dir handle)).Sound := by
  simp only [step]
  split
  · rename_i hu hok
    have hlisted : t.session.isListed dir handle := by
      rcases unlistStream_cases t.session dir handle with ⟨hl, -⟩ | ⟨-, hc⟩
      · exact hl
      · rw [hc] at hok
        cases hok
    constructor
    case tied =>
      rw [held_put _ fun dir' => by simp [held, hu, Underway.holds]]
      exact h.tied.unlistStream dir handle
    case accounted =>
      refine h.accounted.free (fun _ => by simp) (fun _ => by simp) (fun _ _ => by simp)
        (fun _ _ _ hb => by simpa using hb) (by rintro v ⟨⟩ _ _ _ ha; exact ha) ?_ ?_
      · rintro dir' handle' ⟨⟩
        exact isIssued_of_isListed hlisted
      · intro dir' handle' hl hr
        by_cases he : dir' = dir ∧ handle' = handle
        · obtain ⟨rfl, rfl⟩ := he
          exact Or.inl rfl
        · right
          exact ⟨by simpa [isListed_unlistStream, he] using hl, by simpa using hr, by simp [hu]⟩
  · exact h

/-- The mark in the record takes the place of the call that was to set it. -/
theorem sound_release {t : Traffic δ σ} (h : t.Sound) (call : Nat) :
    (t.step (.release call)).Sound := by
  simp only [step]
  split
  · rename_i dir handle hu
    have hfree : ∀ dir', (t.on (t.session.releaseStream dir handle).2).held dir' call = none :=
      fun dir' => by simp [held, hu, Underway.holds]
    have hissued := h.accounted.token call dir handle hu
    constructor
    case tied =>
      rw [held_put_released _ hfree]
      exact h.tied.releaseStream (hfree dir) handle
    case accounted =>
      refine h.accounted.free (fun _ => by simp) (fun _ => by simp) (fun _ _ => by simp) ?_
        (by rintro v ⟨⟩ _ _ _ ha; exact ha) (by rintro _ _ ⟨⟩) ?_
      · intro dir' handle' b hb
        rw [bindingOf_releaseStream] at hb
        split at hb
        · cases hb
        · exact hb
      · intro dir' handle' hl hr
        right
        rw [isListed_releaseStream] at hl
        rw [isReleased_releaseStream] at hr
        split at hr
        · rename_i he
          obtain ⟨rfl, rfl⟩ := he
          rw [hissued] at hr
          cases hr
        · rename_i hne
          refine ⟨hl, hr, fun he => hne ?_⟩
          rw [hu] at he
          cases he
          exact ⟨rfl, rfl⟩
  · exact h

theorem sound_vacate {t : Traffic δ σ} (h : t.Sound) (call : Nat) :
    (t.step (.vacate call)).Sound := by
  simp only [step]
  split
  · rename_i dir b hu
    have hu' : (t.on (t.session.vacate dir b)).underway call = some (.released dir b) := hu
    have hheld : t.held dir call = b := by simp [held, hu, Underway.holds]
    constructor
    case tied =>
      have htied := h.tied.vacate dir call
      rw [hheld] at htied
      rw [held_put_none _ hu']
      exact htied
    case accounted =>
      have haccounted : (t.on (t.session.vacate dir b)).Accounted := by
        refine h.accounted.on_of_same h.tied (fun _ => by simp) (fun _ => by simp)
          (fun _ _ => by simp) (fun _ _ => by simp) (fun _ _ => by simp) ?_
        intro dir' i b' hb
        left
        simpa using hb
      exact haccounted.put (by simp) (by simp [hu]) (by simp)
  · exact h

/-- Dropping everything unlists every handle, but leaves no device for any of them. -/
theorem sound_clear {t : Traffic δ σ} (h : t.Sound) : (t.step .clear).Sound := by
  refine ⟨h.tied.clear, ?_⟩
  constructor
  case target =>
    intro dir index handle ha
    simpa [step] using h.accounted.target dir index handle ha
  case token =>
    intro call dir handle hu
    simpa [step] using h.accounted.token call dir handle hu
  case unlisted =>
    intro dir handle _ _ _
    right
    constructor <;> intros <;> simp [step]

theorem sound_streamCall {t : Traffic δ σ} (h : t.Sound) (dir : Direction) (handle : Nat)
    (f : δ → σ dir → (Except Fault Unit × Unit) × δ × σ dir) :
    (t.step (.streamCall dir handle f)).Sound := by
  rcases streamRun_cases t.session dir handle f with ⟨b, v, device, v', hv, hp⟩ | hv
  · refine ⟨h.tied.of_streamPut hv hp, ?_⟩
    exact h.accounted.on_of_same h.tied hp.known hp.live hp.issued hp.listed hp.released
      fun dir i b hb => Or.inl ((hp.binding dir i).symm.trans hb)
  · exact h.on_of_sameView hv

theorem sound_step {t : Traffic δ σ} (h : t.Sound) (p : Phase δ σ) : (t.step p).Sound := by
  cases p with
  | makeDevice device => exact sound_makeDevice h device
  | freeDevice index => exact sound_freeDevice h index
  | makeStream dir => exact sound_makeStream h dir
  | startAttach call dir index handle => exact sound_startAttach h call dir index handle
  | endBuild call built => exact sound_endBuild h call built
  | commit call => exact sound_commit h call
  | unlist call dir handle => exact sound_unlist h call dir handle
  | release call => exact sound_release h call
  | vacate call => exact sound_vacate h call
  | deviceCall index f => exact h.on_of_sameView (sameView_deviceCall t.session index f)
  | streamCall dir handle f => exact sound_streamCall h dir handle f
  | clear => exact sound_clear h

theorem sound_run {t : Traffic δ σ} (h : t.Sound) (phases : List (Phase δ σ)) :
    (run phases t).Sound := by
  induction phases generalizing t with
  | nil => exact h
  | cons p phases ih => exact ih (sound_step h p)

/-! ## Released handles -/

/-- No phase takes the mark of a free off a record. -/
theorem isReleased_step {t : Traffic δ σ} {dir : Direction} {handle : Nat} (h : t.Sound)
    (hr : t.session.isReleased dir handle) (p : Phase δ σ) :
    (t.step p).session.isReleased dir handle := by
  cases p with
  | makeDevice device => exact hr
  | freeDevice index => simpa [step] using hr
  | makeStream dir => simpa [step] using hr
  | startAttach call dir index handle =>
    simp only [step]
    split <;> exact hr
  | endBuild call built =>
    simp only [step]
    split
    · exact hr
    · exact hr
  | commit call =>
    simp only [step]
    split
    · rename_i dir' index handle' stream hu
      have hk := h.accounted.target dir' index handle' ⟨call, _, hu, rfl, rfl, rfl⟩
      rcases commit_cases t.session dir' index handle' stream hk with
        ⟨-, hc⟩ | ⟨-, hc⟩ | ⟨-, offset, s', hc, hs⟩
      · rw [hc]
        exact hr
      · rw [hc]
        exact hr
      · rw [hc]
        exact (hs.released dir handle).trans hr
    · exact hr
  | unlist call dir handle =>
    simp only [step]
    split
    · simpa using hr
    · exact hr
  | release call =>
    simp only [step]
    split
    · rename_i dir' handle' hu
      show (t.session.releaseStream dir' handle').2.isReleased dir handle
      rw [isReleased_releaseStream]
      split
      · rename_i he
        obtain ⟨rfl, rfl⟩ := he
        exact h.accounted.token call dir handle hu
      · exact hr
    · exact hr
  | vacate call =>
    simp only [step]
    split
    · simpa using hr
    · exact hr
  | deviceCall index f =>
    exact ((sameView_deviceCall t.session index f).released dir handle).trans hr
  | streamCall dir' handle' f =>
    rcases streamRun_cases t.session dir' handle' f with ⟨b, v, device, v', -, hp⟩ | hv
    · exact (hp.released dir handle).trans hr
    · exact (hv.released dir handle).trans hr
  | clear => simpa [step] using hr

theorem isReleased_run {t : Traffic δ σ} {dir : Direction} {handle : Nat} (h : t.Sound)
    (hr : t.session.isReleased dir handle) (phases : List (Phase δ σ)) :
    (run phases t).session.isReleased dir handle := by
  induction phases generalizing t with
  | nil => exact hr
  | cons p phases ih => exact ih (sound_step h p) (isReleased_step h hr p)

/-- The second phase of a free marks the record. -/
theorem isReleased_release {t : Traffic δ σ} {call : Nat} {dir : Direction} {handle : Nat}
    (h : t.Sound) (hu : t.underway call = some (.unlisted dir handle)) :
    (t.step (.release call)).session.isReleased dir handle := by
  simp only [step, hu]
  show (t.session.releaseStream dir handle).2.isReleased dir handle
  rw [isReleased_releaseStream, if_pos ⟨rfl, rfl⟩]
  exact h.accounted.token call dir handle hu

/-! ## Between calls -/

/-- The handles that are bound to a device, as they can be asked for. -/
def boundTo (s : Session δ σ) (dir : Direction) (index : Nat) : Set Nat :=
  {handle | ∃ offset, s.streamBinding dir handle = .ok (some ⟨index, offset⟩)}

/-- The occupied places of a device, as the answers they give. -/
def occupiedOf (r : DeviceRecord δ σ) (dir : Direction) (index : Nat) :
    Set (Except Error (Option Binding)) :=
  {answer | ∃ offset, ((r.slots.get dir).get? offset).isSome ∧
    answer = .ok (some ⟨index, offset⟩)}

theorem streamBinding_eq_some_iff {s : Session δ σ} {dir : Direction} {handle : Nat} {b : Binding} :
    s.streamBinding dir handle = .ok (some b) ↔
      s.isListed dir handle ∧ s.bindingOf dir handle = some b := by
  unfold streamBinding
  cases hl : s.isListed dir handle with
  | false => simp [streamRecord_of_not_isListed hl, bind, Except.bind]
  | true =>
    obtain ⟨record, hrec, hbind⟩ := streamRecord_of_isListed hl
    rw [← hbind]
    simp [hrec, bind, Except.bind, pure, Except.pure]

/-- With nothing under way, handles bound to a device that is there and its occupied places
correspond one to one. -/
theorem bijOn_of_quiescent {t : Traffic δ σ} (h : t.Sound) (hq : t.Quiescent) (dir : Direction)
    {index : Nat} {r : DeviceRecord δ σ} (hr : t.session.deviceRecord index = .ok r) :
    Set.BijOn (t.session.streamBinding dir) (boundTo t.session dir index)
      (occupiedOf r dir index) := by
  have hget := deviceRecord_eq_ok_iff.1 hr
  have hlive : t.session.isLive index := by
    unfold isLive HandleTable.contains
    rw [hget]
    rfl
  have hstream : ∀ offset, t.session.streamAt dir ⟨index, offset⟩ =
      (r.slots.get dir).get? offset := by
    intro offset
    unfold streamAt
    rw [hget]
    rfl
  have hmaps : Set.MapsTo (t.session.streamBinding dir) (boundTo t.session dir index)
      (occupiedOf r dir index) := by
    rintro handle ⟨offset, hb⟩
    have hgrip := (streamBinding_eq_some_iff.1 hb).2
    refine ⟨offset, ?_, hb⟩
    rw [← hstream]
    exact h.tied.occupied dir (.handle handle) _ hgrip hlive
  have hinj : Set.InjOn (t.session.streamBinding dir) (boundTo t.session dir index) := by
    rintro handle ⟨offset, hb⟩ handle' - he
    have hgrip := (streamBinding_eq_some_iff.1 hb).2
    have hgrip' := (streamBinding_eq_some_iff.1 (he ▸ hb)).2
    exact Holder.handle.inj
      (h.tied.single dir (.handle handle) (.handle handle') _ hgrip hgrip' hlive)
  have hsurj : Set.SurjOn (t.session.streamBinding dir) (boundTo t.session dir index)
      (occupiedOf r dir index) := by
    rintro answer ⟨offset, ho, rfl⟩
    rw [← hstream] at ho
    obtain ⟨x, hx⟩ := h.tied.held dir _ ho
    cases x with
    | call number =>
      simp [grip, held, hq number] at hx
    | handle handle =>
      have hb : t.session.bindingOf dir handle = some ⟨index, offset⟩ := hx
      have hreleased : t.session.isReleased dir handle = false := by
        cases hrel : t.session.isReleased dir handle with
        | false => rfl
        | true =>
          rw [h.tied.released dir handle hrel] at hb
          cases hb
      have hlisted : t.session.isListed dir handle := by
        cases hl : t.session.isListed dir handle with
        | true => rfl
        | false =>
          rcases h.accounted.unlisted dir handle (isIssued_of_bindingOf hb) hl hreleased with
            ⟨call, hu⟩ | hstale
          · rw [hq call] at hu
            cases hu
          · rw [hstale.bound _ hb] at hlive
            cases hlive
      have hanswer := streamBinding_eq_some_iff.2 ⟨hlisted, hb⟩
      exact ⟨handle, ⟨offset, hanswer⟩, hanswer⟩
  exact ⟨hmaps, hinj, hsurj⟩

/-- No place is leaked or shared: whatever phases of whatever calls have run, when none is under
way, the handles bound to a device that is there and the occupied places of the device
correspond one to one.  And an attach whose handle was freed before its commit is refused, and
its stream takes no place. -/
theorem quiescent_bijOn_and_commit_refused (phases : List (Phase δ σ)) :
    ((run phases initial).Quiescent → ∀ dir index r,
      (run phases initial).session.deviceRecord index = .ok r →
      Set.BijOn ((run phases initial).session.streamBinding dir)
        (boundTo (run phases initial).session dir index) (occupiedOf r dir index)) ∧
    (∀ before after call attach dir index handle stream,
      phases = before ++ .release call :: after →
      (run before initial).underway call = some (.unlisted dir handle) →
      (run phases initial).underway attach = some (.built dir index handle stream) →
      Error.kind (.freedDuringAttach dir handle) = .invalidStreamer ∧
      (run phases initial).session.commit dir index handle stream =
        (.error (.freedDuringAttach dir handle), (run phases initial).session) ∧
      ((run phases initial).step (.commit attach)).session = (run phases initial).session ∧
      (run phases initial).session.bindingOf dir handle = none) := by
  have hsound : (run phases initial : Traffic δ σ).Sound := sound_run sound_initial phases
  constructor
  · intro hq dir index r hr
    exact bijOn_of_quiescent hsound hq dir hr
  · intro before after call attach dir index handle stream hphases hfree hattach
    have hbefore : (run before initial : Traffic δ σ).Sound := sound_run sound_initial before
    have hreleased : (run phases initial : Traffic δ σ).session.isReleased dir handle := by
      rw [hphases, run_append]
      exact isReleased_run (sound_step hbefore (.release call)) (isReleased_release hbefore hfree)
        after
    have hk := hsound.accounted.target dir index handle ⟨attach, _, hattach, rfl, rfl, rfl⟩
    have hcommit : (run phases initial : Traffic δ σ).session.commit dir index handle stream =
        (.error (.freedDuringAttach dir handle), (run phases initial).session) := by
      rcases commit_cases _ dir index handle stream hk with ⟨hi, -⟩ | ⟨-, hc⟩ | ⟨hr, -⟩
      · rw [isIssued_of_isReleased hreleased] at hi
        cases hi
      · exact hc
      · rw [hr] at hreleased
        cases hreleased
    refine ⟨rfl, hcommit, ?_, hsound.tied.released dir handle hreleased⟩
    simp [step, hattach, hcommit]

/-- A stream is attached and stays; another is built, and its handle freed before the commit. -/
theorem freed_before_commit :
    let before : List (Phase Unit fun _ => Nat) :=
      [.makeDevice (), .makeStream .rx, .makeStream .rx, .startAttach 0 .rx 1 1,
        .endBuild 0 fun _ => .ok 7, .commit 0, .startAttach 0 .rx 1 2,
        .endBuild 0 fun _ => .ok 8, .unlist 1 .rx 2]
    let phases := before ++ [.release 1, .vacate 1]
    (run phases initial).session.commit .rx 1 2 8 =
        (.error (.freedDuringAttach .rx 2), (run phases initial).session) ∧
      ∃ r : DeviceRecord Unit fun _ => Nat,
        Set.BijOn ((run (phases ++ [.commit 0]) initial).session.streamBinding .rx)
        (boundTo (run (phases ++ [.commit 0]) initial).session .rx 1) (occupiedOf r .rx 1) ∧
        (.ok (some ⟨1, 0⟩)) ∈ occupiedOf r .rx 1 := by
  intro before phases
  have hquiescent : (run (phases ++ [.commit 0]) initial).Quiescent := by
    intro call
    match call with
    | 0 | 1 => rfl
    | _ + 2 => rfl
  refine ⟨?_, _, (quiescent_bijOn_and_commit_refused _).1 hquiescent .rx 1 _ rfl, 0, rfl, rfl⟩
  exact ((quiescent_bijOn_and_commit_refused phases).2 before [.vacate 1] 1 0 .rx 1 2 8 rfl rfl
    rfl).2.1

end Traffic

end SoftRadio.Session
