import LogContext.Work

namespace LogContext

/-- What receives the items of a stream and its end. -/
structure Observer (ε σ ι : Type) where
  next : ι → Work ε σ Unit
  error : ε → Work ε σ Unit
  completed : Work ε σ Unit

namespace Observer

variable {ε σ ι τ : Type}

/-- Passes every item on while a section of the execution selected for it is open. A failure of the
selection, of the section or of the receiver goes to the receiver as an error, once the section is
closed. -/
def withinSections (select : ι → Work ε σ τ) (inSection : τ → Work ε σ Unit → Work ε σ Unit)
    (down : Observer ε σ ι) : Observer ε σ ι where
  next := fun item => do
    match ← (select item).attempt with
    | .error e => down.error e
    | .ok selected =>
      match ← (inSection selected (down.next item)).attempt with
      | .error e => down.error e
      | .ok _ => pure ()
  error := down.error
  completed := down.completed

/-- Lets nothing through once the stream has ended. -/
def gate (ended : σ → Bool) (down : Observer ε σ ι) : Observer ε σ ι where
  next := fun item => do
    if ended (← get) then pure () else down.next item
  error := fun e => do
    if ended (← get) then pure () else down.error e
  completed := do
    if ended (← get) then pure () else down.completed

/-- An error or the completion ends the stream before it is received. -/
def ending (mark : σ → σ) (down : Observer ε σ ι) : Observer ε σ ι where
  next := down.next
  error := fun e => do
    modify mark
    down.error e
  completed := do
    modify mark
    down.completed

/-- Passes other items on than it receives; one that cannot be made is an error. -/
def comap {κ : Type} (f : κ → Except ε ι) (down : Observer ε σ ι) : Observer ε σ κ where
  next := fun item =>
    match f item with
    | .ok item => down.next item
    | .error e => down.error e
  error := down.error
  completed := down.completed

end Observer

end LogContext
