import SoftRadio.Proofs.Session.Numbers

/-!
# What an attach leaves with its device

The device of an attach keeps what the build came to.  The attach itself can be refused before the
build and after it: before, if its handle cannot be named, and after, if the handle was freed
meanwhile.  Of these two the device learns nothing.

* `isIssued_runAll`: a handle that was given out stays given out, whatever is done.
* `attach_lastError_iff`: when the text of the device is that of the attach.
* `attach_lastError_stale`: two attaches that are refused, and a device that keeps another text.
-/

namespace SoftRadio.Session

variable {δ : Type} {σ : Direction → Type}

/-- A handle that was given out stays given out, whatever is done. -/
theorem isIssued_runAll (ops : List (Op δ σ)) (s : Session δ σ) {dir : Direction} {handle : Nat}
    (h : s.isIssued dir handle) : (runAll ops s).2.isIssued dir handle :=
  (grown_runAll ops s).stays_made (x := .stream dir handle) h

/-! ## What the device learns -/

/-- How an attach ends that has found its device and its handle: as its build does, unless the
handle was freed meanwhile. -/
theorem attach_fst_cases {s s' : Session δ σ} {dir : Direction} {index handle : Nat}
    (h : s.resolveAttach dir index handle = .ok ()) (built : Except Fault (σ dir))
    (hknown : s'.isKnown index) (hissued : s'.isIssued dir handle) :
    (∃ f, built = .error f ∧
      (s.attach dir index handle fun _ => (built, s')).1 = .error f.guarded) ∨
    (∃ stream, built = .ok stream ∧ s'.isReleased dir handle ∧
      (s.attach dir index handle fun _ => (built, s')).1 =
        .error (.freedDuringAttach dir handle)) ∨
    (∃ stream offset, built = .ok stream ∧ s'.isReleased dir handle = false ∧
      (s.attach dir index handle fun _ => (built, s')).1 = .ok offset) := by
  unfold attach
  rw [h]
  cases built with
  | error f => exact Or.inl ⟨f, rfl, rfl⟩
  | ok stream =>
    right
    have hview := sameView_recordOnDevice s' index (guardedResult (.ok stream))
    rcases commit_cases (s'.recordOnDevice index (guardedResult (.ok stream))) dir index handle
        stream ((hview.known index).trans hknown) with
      ⟨hnot, -⟩ | ⟨hr, hc⟩ | ⟨hr, offset, s'', hc, -⟩
    · rw [hview.issued, hissued] at hnot
      cases hnot
    · rw [hview.released] at hr
      exact Or.inl ⟨stream, rfl, hr, congrArg Prod.fst hc⟩
    · rw [hview.released] at hr
      exact Or.inr ⟨stream, offset, rfl, hr, congrArg Prod.fst hc⟩

theorem message_freedDuringAttach_ne (dir : Direction) (handle : Nat) :
    (Error.freedDuringAttach dir handle).message ≠ "None" := by
  intro h
  have hlength := congrArg String.length h
  rw [Error.message, String.length_append] at hlength
  have hheading : (Error.freedDuringAttach dir handle).kind.heading.length = 18 := by
    show "Invalid streamer: ".length = 18
    decide
  have hnone : "None".length = 4 := by decide
  omega

/-- The text of the device after an attach on it is what the attach came to, if and only if the
handle can be named at the start and, unless the build fails, was not freed meanwhile.  Where the
handle cannot be named the attach is refused and the text stays what it was, so that it is right
by chance only; where the handle was freed meanwhile the attach is refused after a success has been
put down. -/
theorem attach_lastError_iff (s : Session δ σ) (dir : Direction) (index handle : Nat)
    (during : List (Op δ σ)) (built : Session δ σ → Except Fault (σ dir))
    (hlive : s.isLive index)
    (hstill : s.isListed dir handle → (runAll during s).2.isLive index) :
    let after := (runAll during s).2
    let attached := s.attach dir index handle fun _ => (built after, after)
    (attached.2.deviceLastError index = .ok (match attached.1 with
        | .ok _ => "None"
        | .error e => e.message) ↔
      if s.isListed dir handle then
        (∃ f, built after = .error f) ∨ after.isReleased dir handle = false
      else s.deviceLastError index = .ok (Error.noStreamer dir handle).message) ∧
    (s.isListed dir handle = false → attached = (.error (.noStreamer dir handle), s)) ∧
    (s.isListed dir handle → after.isReleased dir handle → ∀ stream, built after = .ok stream →
      attached.1 = .error (.freedDuringAttach dir handle) ∧
        attached.2.deviceLastError index = .ok "None") := by
  intro after attached
  cases hlisted : s.isListed dir handle with
  | false =>
    have hrefused : s.resolveAttach dir index handle = .error (.noStreamer dir handle) := by
      obtain ⟨r, hr⟩ := exists_deviceRecord hlive
      simp [resolveAttach, hr, streamRecord_of_not_isListed hlisted, bind, Except.bind]
    have hattached : attached = (.error (.noStreamer dir handle), s) :=
      attach_of_resolveAttach_eq_error hrefused _
    rw [hattached]
    refine ⟨?_, fun _ => rfl, fun h => by cases h⟩
    simp
  | true =>
    have hstart := resolveAttach_eq_ok_iff.2 ⟨hlive, hlisted⟩
    have hafter := hstill hlisted
    obtain ⟨before, hbefore⟩ := exists_slot (s := after) (x := .device index) hafter
    -- the device has what the build came to, and nothing else
    have htext : attached.2.deviceLastError index =
        .ok (ErrorSlot.ofResult (guardedResult (built after))) := by
      refine (lastError_eq_ok_iff (x := .device index)).2 ?_
      rw [slot_attach hstart, if_pos rfl, hbefore]
      rfl
    have hissued := isIssued_runAll during s (isIssued_of_isListed hlisted)
    have hcases := attach_fst_cases hstart (built after) (isKnown_of_isLive hafter) hissued
    rw [htext, if_pos rfl]
    refine ⟨?_, fun h => (by cases h), fun _ hreleased stream hstream => ?_⟩
    · rcases hcases with ⟨f, hf, h⟩ | ⟨stream, hs, hr, h⟩ | ⟨stream, offset, hs, hr, h⟩
      · have hend : attached.1 = .error f.guarded := h
        simp [hend, hf, guardedResult, ErrorSlot.ofResult]
      · have hend : attached.1 = .error (.freedDuringAttach dir handle) := h
        have hreleased : after.isReleased dir handle = true := hr
        simp [hend, hs, hreleased, guardedResult, ErrorSlot.ofResult,
          (message_freedDuringAttach_ne dir handle).symm]
      · have hend : attached.1 = .ok offset := h
        have hkept : after.isReleased dir handle = false := hr
        simp [hend, hs, hkept, guardedResult, ErrorSlot.ofResult]
    · rcases hcases with ⟨f, hf, -⟩ | ⟨-, -, -, h⟩ | ⟨-, offset, -, hr, -⟩
      · rw [hf] at hstream
        cases hstream
      · rw [hstream]
        exact ⟨h, rfl⟩
      · have hkept : after.isReleased dir handle = false := hr
        rw [hkept] at hreleased
        cases hreleased

/-- A session with one device and one handle. -/
def paired : Session Unit fun _ => Nat := (runAll [.makeDevice (.ok ()), .makeStream .rx] initial).2

/-- An attach whose handle is freed while its stream is built. -/
theorem attach_lastError_freed :
    paired.isLive 1 ∧ (runAll [.freeStream .rx 1] paired).2.isLive 1 ∧
      (paired.attach .rx 1 1 fun _ => (.ok 10, (runAll [.freeStream .rx 1] paired).2)).1 =
        .error (.freedDuringAttach .rx 1) ∧
      (paired.attach .rx 1 1 fun _ =>
        (.ok 10, (runAll [.freeStream .rx 1] paired).2)).2.deviceLastError 1 = .ok "None" := by
  have hlive : paired.isLive 1 := by decide
  have hstill : (runAll [.freeStream .rx 1] paired).2.isLive 1 := by decide
  obtain ⟨-, -, h⟩ := attach_lastError_iff paired .rx 1 1 [.freeStream .rx 1] (fun _ => .ok 10)
    hlive fun _ => hstill
  exact ⟨hlive, hstill, h (by decide) (by decide) 10 rfl⟩

/-- An attach with a handle that was never given out, and one with a handle that is freed
meanwhile, both refused: the device keeps the empty text, and the text of a success. -/
theorem attach_lastError_stale :
    let unnamed := paired.attach .rx 1 7 fun s => (.ok 10, s)
    let freed := paired.attach .rx 1 1 fun s => (.ok 10, (s.freeStream .rx 1).2)
    (unnamed.1 = .error (.noStreamer .rx 7) ∧ unnamed.2.deviceLastError 1 = .ok "" ∧
        (Error.noStreamer .rx 7).message =
          "Invalid streamer: rx streamer handle 7 is not allocated") ∧
      freed.1 = .error (.freedDuringAttach .rx 1) ∧ freed.2.deviceLastError 1 = .ok "None" ∧
        (Error.freedDuringAttach .rx 1).message =
          "Invalid streamer: rx streamer handle 1 was freed during attach" :=
  ⟨⟨rfl, rfl, by decide⟩, rfl, rfl, by decide⟩

end SoftRadio.Session
