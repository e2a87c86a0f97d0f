import LogContext.Proofs.FetchedSection
import LogContext.Proofs.PairedStacks
import LogContext.Stream

namespace LogContext

open SectionStack

/-- What a receiver is told, and the state in which it is told. -/
inductive Delivery (ε σ ι : Type) where
  | next (item : ι) (state : σ)
  | error (failure : ε) (state : σ)

namespace Delivery

variable {ε σ ι : Type}

def failure? : Delivery ε σ ι → Option ε
  | .next _ _ => none
  | .error failure _ => some failure

end Delivery

namespace Observer

variable {ε σ τ ι κ : Type} {R : σ → τ → Prop}

/-- A receiver that is told nothing without a note of it. -/
def recorded (down : Observer ε σ ι) : Observer ε (List (Delivery ε σ ι) × σ) ι where
  next := fun item => do
    modify fun s => (s.1 ++ [.next item s.2], s.2)
    (down.next item).beside
  error := fun e => do
    modify fun s => (s.1 ++ [.error e s.2], s.2)
    (down.error e).beside
  completed := down.completed.beside

/-- A receiver that comes back to the open sections it finds, whatever it is told. It may fail on an
item, but not on a failure. -/
structure Balanced (down : Observer ε (SectionStack × σ) ι) : Prop where
  next : ∀ item, (down.next item).Restores fun _ => True
  error : ∀ e, (down.error e).Restores fun _ => True
  handles : ∀ e s, ∃ t, down.error e s = .ok () t

end Observer

namespace Projection

variable {ε σ ι : Type}

def close (p : Projection ε σ) (changed : Bool) : Work ε (SectionStack × σ) Unit :=
  if changed then p.pop else pure ()

variable {p : Projection ε σ} {select : ι → Work ε σ (ExecutionView ε)}
  {down : Observer ε (SectionStack × σ) ι} {item : ι} {s t v : SectionStack × σ}
  {heard : List (Delivery ε (SectionStack × σ) ι)}

section

variable {post : Except ε Unit → List (Delivery ε (SectionStack × σ) ι) × (SectionStack × σ) → Prop}

end

section

variable {stored : σ → Snapshot} (unfailing : p.Steady (fun _ => True) False)
  (balanced : down.Balanced)

include unfailing balanced

variable (unwritten : ∀ item s, stored ((select item).leaves s) = stored s)

include unwritten

end

end Projection

end LogContext
