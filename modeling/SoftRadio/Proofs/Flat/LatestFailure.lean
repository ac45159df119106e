import SoftRadio.Proofs.Flat.Boundary

/-!
# The text of the latest failure

An interface keeps one text for its caller, and the caller may ask for it.  A run is told here by
the calls in it that have failed (`Failure`), those that ask for the text included.

* `lastError_step`, `lastError_runAll`: the text is that of the latest failure, whoever has failed.
* `call_lastError`: asking changes nothing, unless there is no place for the answer.
* `lastError_eq_others_iff`: so the text is that of the latest call that was not to ask for it, up
  to an ask in vain, which leaves a text of its own.
-/

namespace SoftRadio.Flat

variable {α : Type}

/-- What happens in turn: the caller calls a function, or others do something with the station. -/
inductive Act (α : Type) where
  | call (name : String) (f : Function α) (a : Arguments α)
  | elsewhere (change : Station α → Station α)

/-- A call that has failed: whether it was to ask for the text, and what there is to say of it. -/
structure Failure where
  asking : Bool
  text : String

/-- Whether a function asks for the text of the latest failure. -/
def Function.asks : Function α → Bool
  | .lastError => true
  | _ => false

/-- The text of the latest failure; before the first one, the text there was. -/
def latest (before : String) (failures : List Failure) : String :=
  (failures.getLast?.map Failure.text).getD before

/-- The failures of calls that were not to ask for the text. -/
def others (failures : List Failure) : List Failure := failures.filter fun f => !f.asking

/-- What is left of an ask without a place for the answer. -/
def textOfAskInVain : String := Error.missingTextBuffer.message

theorem latest_append (before : String) (failures failures' : List Failure) :
    latest before (failures ++ failures') = latest (latest before failures) failures' := by
  unfold latest
  rw [List.getLast?_append]
  cases failures'.getLast? <;> rfl

theorem latest_concat (before : String) (failures : List Failure) (failure : Failure) :
    latest before (failures ++ [failure]) = failure.text := by
  simp [latest]

/-- The latest failure is not an ask, or it is one and has left its text. -/
theorem latest_eq_others_iff {failures : List Failure}
    (htext : ∀ failure ∈ failures, failure.asking → failure.text = textOfAskInVain) :
    latest "" failures = latest "" (others failures) ↔
      ∀ failure, failures.getLast? = some failure → failure.asking →
        latest "" (others failures) = textOfAskInVain := by
  rcases List.eq_nil_or_concat failures with rfl | ⟨before, failure, rfl⟩
  · simp [others]
  · rw [List.concat_eq_append] at htext ⊢
    rw [latest_concat, List.getLast?_concat]
    cases hasking : failure.asking with
    | false =>
      have hothers : others (before ++ [failure]) = others before ++ [failure] := by
        simp [others, hasking]
      rw [hothers, latest_concat]
      refine iff_of_true rfl ?_
      rintro _ ⟨⟩ h
      rw [hasking] at h
      cases h
    | true =>
      rw [htext failure List.mem_concat_self hasking]
      constructor
      · rintro h _ - -
        exact h.symm
      · exact fun h => (h failure rfl hasking).symm

variable [Scalar α]

namespace Interface

/-- How a call fails, if it does. -/
def failure? (i : Interface α) (name : String) (f : Function α) (a : Arguments α) :
    Option Failure :=
  match (f.run a i).1 with
  | .ok () => none
  | .error fault => some ⟨f.asks, (explain name fault).2⟩

/-- A step of a run, and the failure in it. -/
def step (i : Interface α) : Act α → List Failure × Interface α
  | .call name f a => ((i.failure? name f a).toList, (i.call name f a).2)
  | .elsewhere change => ([], { i with station := change i.station })

/-- A run, and the failures in it, in order. -/
def runAll : List (Act α) → Interface α → List Failure × Interface α
  | [], i => ([], i)
  | act :: acts, i =>
    let first := i.step act
    let rest := runAll acts first.2
    (first.1 ++ rest.1, rest.2)

/-! ## What one step does -/

theorem lastError_step (i : Interface α) (act : Act α) :
    (i.step act).2.lastError = latest i.lastError (i.step act).1 := by
  cases act with
  | elsewhere change => rfl
  | call name f a =>
    rcases hend : f.run a i with ⟨fault | ⟨⟩, desk⟩
    · simp only [step, call_of_error hend, failure?, hend]
      rfl
    · simp only [step, call_of_ok hend, failure?, hend]
      rfl

theorem run_lastError (i : Interface α) (a : Arguments α) :
    Function.run .lastError a i =
      if .text ∈ a.missing ∧ a.length ≠ 0 then
        (refuse .missingTextBuffer, ⟨i.station, [], []⟩)
      else (.ok (), ⟨i.station, Output.writeText a i.lastError, []⟩) :=
  Function.run_copyOut a i.lastError (.start i.station)

/-- To ask for the text changes nothing and copies it out, if there is a place for it. -/
theorem call_lastError (i : Interface α) (name : String) (a : Arguments α) :
    i.call name .lastError a =
      if .text ∈ a.missing ∧ a.length ≠ 0 then
        (⟨Error.missingTextBuffer.status, [], []⟩, { i with lastError := textOfAskInVain })
      else (⟨.none, Output.writeText a i.lastError, []⟩, i) := by
  have hrun := run_lastError i a
  split
  · rename_i hbad
    rw [if_pos hbad] at hrun
    exact call_of_error hrun name
  · rename_i hgood
    rw [if_neg hgood] at hrun
    exact call_of_ok hrun name

/-- An ask fails in one way only. -/
theorem text_of_asking {i : Interface α} {act : Act α} {failure : Failure}
    (h : failure ∈ (i.step act).1) (hasking : failure.asking) :
    failure.text = textOfAskInVain := by
  cases act with
  | elsewhere change => cases h
  | call name f a =>
    have hfailure : i.failure? name f a = some failure := Option.mem_toList.1 h
    unfold failure? at hfailure
    split at hfailure
    · cases hfailure
    · rename_i fault hrun
      cases hfailure
      cases f with
      | lastError =>
        have hfault : fault = .error .missingTextBuffer := by
          rw [run_lastError] at hrun
          split at hrun
          · cases hrun
            rfl
          · cases hrun
        rw [hfault]
        rfl
      | _ => cases hasking

/-! ## What a run does -/

/-- After any run the text is that of the latest failure in it. -/
theorem lastError_runAll (acts : List (Act α)) (i : Interface α) :
    (runAll acts i).2.lastError = latest i.lastError (runAll acts i).1 := by
  induction acts generalizing i with
  | nil => rfl
  | cons act acts ih =>
    unfold runAll
    dsimp only
    rw [ih, lastError_step, latest_append]

theorem text_of_asking_runAll (acts : List (Act α)) (i : Interface α) :
    ∀ failure ∈ (runAll acts i).1, failure.asking → failure.text = textOfAskInVain := by
  induction acts generalizing i with
  | nil => nofun
  | cons act acts ih =>
    intro failure hmem hasking
    rcases List.mem_append.1 hmem with hfirst | hrest
    · exact text_of_asking hfirst hasking
    · exact ih _ failure hrest hasking

/-- After any run, with whatever others do meanwhile, the text is that of the latest call that has
failed.  It is that of the latest one that was not to ask for the text if and only if no ask in
vain came after it, or this has left the very same text.  An ask changes nothing and copies the
text out, unless it has no place for the answer. -/
theorem lastError_eq_others_iff (acts : List (Act α)) (station : Station α) :
    let failures := (runAll acts (initial station)).1
    let i := (runAll acts (initial station)).2
    i.lastError = latest "" failures ∧
    (i.lastError = latest "" (others failures) ↔
      ∀ failure, failures.getLast? = some failure → failure.asking →
        latest "" (others failures) = textOfAskInVain) ∧
    ∀ name a, i.call name .lastError a =
      if .text ∈ a.missing ∧ a.length ≠ 0 then
        (⟨Error.missingTextBuffer.status, [], []⟩, { i with lastError := textOfAskInVain })
      else (⟨.none, Output.writeText a i.lastError, []⟩, i) := by
  intro failures i
  have hlast : i.lastError = latest "" failures := lastError_runAll acts (initial station)
  refine ⟨hlast, ?_, fun name a => call_lastError i name a⟩
  rw [hlast]
  exact latest_eq_others_iff (text_of_asking_runAll acts (initial station))

/-- A device that is not there is asked for its text, and then the text of the failure is asked for
without a place for the answer: what is left is not the text of the first failure. -/
theorem lastError_of_ask_in_vain :
    let acts : List (Act ℚ) :=
      [.call "radio_device_last_error" .deviceLastError
        { Arguments.zero with handle := 9, length := 256 },
      .call "radio_get_last_error" .lastError
        { Arguments.zero with length := 256, missing := [.text] }]
    let run := runAll acts (initial (.initial .absent []))
    run.2.lastError = "ValueError: string buffer must not be null" ∧
      latest "" (others run.1) = "Invalid device: index 9 is not registered" := by
  constructor <;> decide

end Interface

end SoftRadio.Flat
