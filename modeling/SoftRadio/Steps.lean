import SoftRadio.Fault

/-!
Rows of steps on a state.  A step that fails ends its row, and nothing that
was written before it is taken back, so what a failure leaves behind is up
to the order of the steps.
-/

namespace SoftRadio

/-- Steps on a state, which is passed on by a step that fails as well. -/
abbrev Steps (σ : Type) : Type → Type := ExceptT Fault (StateM σ)

namespace Steps

variable {σ τ β : Type}

/-- Something that does not hang on the state, and may fail. -/
def check (x : Except Fault β) : Steps σ β := fun s => (x, s)

/-- A look at the state, which may be refused. -/
def look (f : σ → Except Fault β) : Steps σ β := fun s => (f s, s)

/-- Steps on a part of the state, if there is such a part. -/
def within (part : σ → Except Fault τ) (put : σ → τ → σ) (x : Steps τ β) : Steps σ β := fun s =>
  match part s with
  | .ok t => ((x t).1, put s (x t).2)
  | .error fault => (.error fault, s)

/-- Steps on a part that is always there. -/
def on (part : σ → τ) (put : σ → τ → σ) (x : Steps τ β) : Steps σ β :=
  within (fun s => .ok (part s)) put x

end Steps

end SoftRadio
