import SoftRadio.Steps

/-!
# Rows of steps

A row of steps is taken apart at its first step.  Most of what a radio does is computed at once
elsewhere, as a result that has a new state if it succeeds and none if it fails; the radio itself
writes in place, step by step.  `EndsAs` says that both come to the same, and that of the writes
nothing is left behind by a failure.

* `bind_of_ok`, `bind_of_error`, `exists_of_bind_eq_ok`: the first step of a row, and the rest.
* `EndsAs`, with one rule for each kind of step.  There is none for a step that may fail after a
  write: a row has its writes at its end.
-/

namespace SoftRadio.Steps

variable {σ τ β γ ρ ρ' : Type} {x y : Steps σ β} {k : β → Steps σ γ} {s s' : σ}

/-! ## One step after the other -/

theorem bind_of_ok {b : β} (h : x s = (.ok b, s')) : (x >>= k) s = k b s' := by
  simp only [bind, ExceptT.bind, ExceptT.mk, StateT.bind, h]
  rfl

theorem bind_of_error {fault : Fault} (h : x s = (.error fault, s')) :
    (x >>= k) s = (.error fault, s') := by
  simp only [bind, ExceptT.bind, ExceptT.mk, StateT.bind, h]
  rfl

/-- A row that succeeds has gone through its first step. -/
theorem exists_of_bind_eq_ok {c : γ} (h : (x >>= k) s = (.ok c, s')) :
    ∃ b between, x s = (.ok b, between) ∧ k b between = (.ok c, s') := by
  rcases hfirst : x s with ⟨fault | b, between⟩
  · rw [bind_of_error hfirst] at h
    cases h
  · exact ⟨b, between, rfl, (bind_of_ok hfirst).symm.trans h⟩

theorem run_pure (b : β) (s : σ) : (pure b : Steps σ β) s = (.ok b, s) := rfl

/-- What is made of the result at the end leaves the state alone. -/
theorem snd_bind_pure (x : Steps σ β) (c : β → γ) (s : σ) :
    ((x >>= fun b => pure (c b)) s).2 = (x s).2 := by
  rcases hx : x s with ⟨fault | b, s'⟩
  · rw [bind_of_error hx]
  · rw [bind_of_ok hx]
    rfl

theorem run_within (part : σ → Except Fault τ) {t : τ} (h : part s = .ok t) (put : σ → τ → σ)
    (x : Steps τ β) : within part put x s = ((x t).1, put s (x t).2) := by
  unfold within
  rw [h]

/-- What holds of a state, and of what the rest of a row makes of it, is left after a look. -/
theorem look_bind_cases {P : σ → Prop} {f : σ → Except Fault β} (hs : P s)
    (hk : ∀ b, f s = .ok b → P (k b s).2) : P ((look f >>= k) s).2 := by
  cases hf : f s with
  | error fault =>
    have hlook : look f s = (.error fault, s) := congrArg (·, s) hf
    rwa [bind_of_error hlook]
  | ok b =>
    have hlook : look f s = (.ok b, s) := congrArg (·, s) hf
    rw [bind_of_ok hlook]
    exact hk b hf

theorem within_cases {P : σ → Prop} {part : σ → Except Fault τ} {put : σ → τ → σ} {x : Steps τ β}
    (hs : P s) (hx : ∀ t, part s = .ok t → P (put s (x t).2)) : P (within part put x s).2 := by
  cases hpart : part s with
  | error fault =>
    unfold within
    rwa [hpart]
  | ok t =>
    rw [run_within part hpart]
    exact hx t hpart

/-! ## In place and at once -/

variable {F : Fault → Prop} {pack : β → σ → ρ}

/-- Begun at a state the steps end as `r` does, which has what `pack` makes of their result and of
the state that they leave.  A failure of the kind `F` leaves the state as it was. -/
structure EndsAs (F : Fault → Prop) (pack : β → σ → ρ) (x : Steps σ β) (s : σ)
    (r : Except Fault ρ) : Prop where
  settled : r = (fun b => pack b (x s).2) <$> (x s).1
  kept : ∀ fault, F fault → (x s).1 = .error fault → (x s).2 = s

/-- Steps that do nothing but write come to the new state. -/
abbrev Sets (F : Fault → Prop) (x : Steps σ Unit) (s : σ) (r : Except Fault σ) : Prop :=
  EndsAs F (fun _ s => s) x s r

/-- The steps succeed and so does the result, or both fail alike. -/
theorem EndsAs.outcome {r : Except Fault ρ} (h : EndsAs F pack x s r) :
    (∃ b s', x s = (.ok b, s') ∧ r = .ok (pack b s')) ∨
      ∃ fault s', x s = (.error fault, s') ∧ r = .error fault ∧ (F fault → s' = s) := by
  obtain ⟨hsettled, hkept⟩ := h
  rcases hx : x s with ⟨fault | b, s'⟩
  · rw [hx] at hsettled hkept
    exact .inr ⟨fault, s', rfl, hsettled, fun hF => hkept fault hF rfl⟩
  · rw [hx] at hsettled
    exact .inl ⟨b, s', rfl, hsettled⟩

theorem endsAs_of_ok {b : β} (h : x s = (.ok b, s')) : EndsAs F pack x s (.ok (pack b s')) where
  settled := by rw [h]; rfl
  kept fault _ hfault := by
    rw [h] at hfault
    cases hfault

theorem endsAs_of_error {fault : Fault} (h : x s = (.error fault, s)) :
    EndsAs F pack x s (.error fault) where
  settled := by rw [h]; rfl
  kept _ _ _ := congrArg Prod.snd h

theorem endsAs_refuse (e : Error) : EndsAs F pack (check (refuse e)) s (refuse e) :=
  endsAs_of_error rfl

theorem sets_modify (f : σ → σ) : Sets F (modify f) s (.ok (f s)) := endsAs_of_ok rfl

/-- Steps that only read. -/
theorem endsAs_of_reads {r : Except Fault β} (h : x s = (r, s)) :
    EndsAs F pack x s ((pack · s) <$> r) := by
  cases r with
  | error fault => exact endsAs_of_error h
  | ok b => exact endsAs_of_ok h

/-- A step that gives something known and changes nothing may be left out. -/
theorem endsAs_ok_bind {pack : γ → σ → ρ} {b : β} {r : Except Fault ρ} (hx : x s = (.ok b, s))
    (hk : EndsAs F pack (k b) s r) : EndsAs F pack (x >>= k) s r := by
  have hrun : (x >>= k) s = k b s := bind_of_ok hx
  exact ⟨by rw [hrun]; exact hk.settled, by rw [hrun]; exact hk.kept⟩

/-- A step that only reads stands in front of the others. -/
theorem endsAs_bind {pack : γ → σ → ρ} {r : Except Fault β} {f : β → Except Fault ρ}
    (hx : x s = (r, s)) (hk : ∀ b, r = .ok b → EndsAs F pack (k b) s (f b)) :
    EndsAs F pack (x >>= k) s (r >>= f) := by
  cases r with
  | error fault => exact endsAs_of_error (bind_of_error hx)
  | ok b => exact endsAs_ok_bind hx (hk b rfl)

theorem EndsAs.ite {c : Prop} [Decidable c] {r r' : Except Fault ρ}
    (hx : c → EndsAs F pack x s r) (hy : ¬c → EndsAs F pack y s r') :
    EndsAs F pack (if c then x else y) s (if c then r else r') := by
  by_cases hc : c
  · rw [if_pos hc, if_pos hc]
    exact hx hc
  · rw [if_neg hc, if_neg hc]
    exact hy hc

/-- The result of the steps may be made into another. -/
theorem EndsAs.bind_pure {pack' : γ → σ → ρ'} {r : Except Fault ρ} (h : EndsAs F pack x s r)
    (c : β → γ) {f : ρ → ρ'} (hf : ∀ b s', f (pack b s') = pack' (c b) s') :
    EndsAs F pack' (x >>= fun b => pure (c b)) s (f <$> r) := by
  rcases h.outcome with ⟨b, s', hx, rfl⟩ | ⟨fault, s', hx, rfl, hkept⟩
  · show EndsAs F pack' _ s (.ok (f (pack b s')))
    rw [hf]
    exact endsAs_of_ok (bind_of_ok hx)
  · have hrun : (x >>= fun b => pure (c b)) s = (.error fault, s') := bind_of_error hx
    refine ⟨by rw [hrun]; rfl, ?_⟩
    rw [hrun]
    rintro _ hF ⟨⟩
    exact hkept hF

/-- Steps on a part, in place and at once. -/
theorem EndsAs.within {part : σ → Except Fault τ} {put : σ → τ → σ} {x : Steps τ β}
    {pack : β → τ → ρ} {pack' : β → σ → ρ'} {r : τ → Except Fault ρ} {f : ρ → ρ'}
    (hx : ∀ t, part s = .ok t → EndsAs F pack x t (r t))
    (hput : ∀ t, part s = .ok t → put s t = s) (hf : ∀ b t, f (pack b t) = pack' b (put s t)) :
    EndsAs F pack' (within part put x) s (part s >>= fun t => f <$> r t) := by
  cases hpart : part s with
  | error fault => exact endsAs_of_error (by unfold Steps.within; rw [hpart])
  | ok t =>
    obtain ⟨hsettled, hkept⟩ := hx t hpart
    have hrun := run_within part hpart put x
    refine ⟨?_, fun fault hF hfault => ?_⟩
    · rw [hrun]
      show f <$> r t = _
      rw [hsettled]
      cases (x t).1 with
      | error fault => rfl
      | ok b => exact congrArg Except.ok (hf b (x t).2)
    · rw [hrun] at hfault ⊢
      show put s (x t).2 = s
      rw [hkept fault hF hfault]
      exact hput t hpart

theorem EndsAs.on {part : σ → τ} {put : σ → τ → σ} {x : Steps τ β} {pack : β → τ → ρ}
    {pack' : β → σ → ρ'} {r : Except Fault ρ} {f : ρ → ρ'} (hx : EndsAs F pack x (part s) r)
    (hput : put s (part s) = s) (hf : ∀ b t, f (pack b t) = pack' b (put s t)) :
    EndsAs F pack' (on part put x) s (f <$> r) := by
  have hwithin : EndsAs F pack' (Steps.on part put x) s (Except.ok (part s) >>= fun _ => f <$> r) :=
    .within (fun t ht => by cases ht; exact hx) (fun t ht => by cases ht; exact hput) hf
  exact hwithin

end SoftRadio.Steps
