namespace LogContext

/-- Work on a state that may fail; whatever was done before the failure stays done. -/
abbrev Work (ε σ α : Type) := EStateM ε σ α

namespace Work

variable {ε σ τ α : Type}

/-- The outcome as a value; this never fails. -/
def attempt (work : Work ε σ α) : Work ε σ (Except ε α) := fun s =>
  match work s with
  | .ok a s => .ok (.ok a) s
  | .error e s => .ok (.error e) s

def ofExcept : Except ε α → Work ε σ α
  | .ok a => pure a
  | .error e => throw e

/-- `after` runs whether `body` succeeds or fails, and a failure of `after` is the one that counts. -/
def ensuring (body : Work ε σ α) (after : Work ε σ Unit) : Work ε σ α := do
  let outcome ← body.attempt
  after
  ofExcept outcome

/-- Work on a part of a state. -/
def within (part : σ → τ) (put : τ → σ → σ) (work : Work ε τ α) : Work ε σ α := fun s =>
  match work (part s) with
  | .ok a t => .ok a (put t s)
  | .error e t => .error e (put t s)

/-- Work on the second of two states leaves the first alone. -/
def beside (work : Work ε σ α) : Work ε (τ × σ) α := fun s =>
  match work s.2 with
  | .ok a t => .ok a (s.1, t)
  | .error e t => .error e (s.1, t)

theorem ensuring_apply (body : Work ε σ α) (after : Work ε σ Unit) (s : σ) :
    body.ensuring after s =
      match body s with
      | .ok a s => match after s with
        | .ok _ s => .ok a s
        | .error e s => .error e s
      | .error e s => match after s with
        | .ok _ s => .error e s
        | .error e s => .error e s := by
  simp only [ensuring, attempt, bind, EStateM.bind]
  cases body s with
  | ok a t =>
    cases h : after t with
    | ok => simp only [h]; rfl
    | error => simp only [h]
  | error e t =>
    cases h : after t with
    | ok => simp only [h]; rfl
    | error => simp only [h]

end Work

end LogContext
