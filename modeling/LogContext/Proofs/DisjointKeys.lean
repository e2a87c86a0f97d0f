import LogContext.Proofs.ActiveKeys
import LogContext.Proofs.AlikeProjections

namespace LogContext

open SectionStack

/-- What a user does with a projection. A section is entered and left in separate steps, so sections
of several users may overlap in any way; numbers tell those of one user apart. -/
inductive ProjectionMove (ε : Type) where
  | call (call : ProjectionCall ε)
  | enter (block : Nat) (view : ExecutionView ε)
  | leave (block : Nat)

/-- The stack of a projection, and which blocks have a section to pop when they are left. -/
structure ProjectionUse where
  stack : SectionStack
  changed : Nat → Bool

namespace ProjectionUse

variable {ε σ α : Type}

def start : ProjectionUse := ⟨.empty, fun _ => false⟩

def mark (block : Nat) (changed : Bool) : Work ε (ProjectionUse × σ) Unit :=
  modify fun s => ({ s.1 with changed := Function.update s.1.changed block changed }, s.2)

def onStack (work : Work ε (SectionStack × σ) α) : Work ε (ProjectionUse × σ) α :=
  work.within (fun s => (s.1.stack, s.2)) fun t s => ({ s.1 with stack := t.1 }, t.2)

end ProjectionUse

open ProjectionUse

namespace ProjectionMove

variable {ε σ α : Type}

/-- A block that failed to be entered is not left; one that changed nothing is left without a pop. -/
def run (p : Projection ε σ) : ProjectionMove ε → Work ε (ProjectionUse × σ) (Option Bool)
  | .call c => onStack (c.run p)
  | .enter block view => do
    let changed ← onStack (p.push view)
    mark block changed
    pure (some changed)
  | .leave block => do
    if (← get).1.changed block then
      mark block false
      onStack p.pop
    pure none

theorem run_enter (p : Projection ε σ) (block : Nat) (view : ExecutionView ε)
    (s : ProjectionUse × σ) :
    (ProjectionMove.enter block view).run p s =
      match p.push view (s.1.stack, s.2) with
      | .ok changed t =>
        .ok (some changed)
          ({ stack := t.1, changed := Function.update s.1.changed block changed }, t.2)
      | .error e t => .error e ({ s.1 with stack := t.1 }, t.2) := by
  simp only [ProjectionMove.run, onStack, Work.within, bind, EStateM.bind]
  cases p.push view (s.1.stack, s.2) <;> rfl

theorem run_leave (p : Projection ε σ) (block : Nat) (s : ProjectionUse × σ) :
    (ProjectionMove.leave block).run p s =
      if s.1.changed block = true then
        match p.pop (s.1.stack, s.2) with
        | .ok _ t =>
          .ok none ({ stack := t.1, changed := Function.update s.1.changed block false }, t.2)
        | .error e t =>
          .error e ({ stack := t.1, changed := Function.update s.1.changed block false }, t.2)
      else .ok none s := by
  rw [ProjectionMove.run, Work.get_bind]
  split
  next =>
    rw [mark, Work.modify_bind]
    simp only [onStack, Work.within, bind, EStateM.bind]
    cases p.pop (s.1.stack, s.2) <;> rfl
  next => rfl

/-- A body inside a section is a block that is entered and left around it. -/
theorem onStack_inSection (p : Projection ε σ) (block : Nat) (view : ExecutionView ε)
    (body : Work ε (SectionStack × σ) α) (s : ProjectionUse × σ)
    (fresh : s.1.changed block = false) :
    onStack (p.inSection view fun _ => body) s = (do
      let _ ← (ProjectionMove.enter block view).run p
      (onStack body).ensuring do
        let _ ← (ProjectionMove.leave block).run p : Work ε (ProjectionUse × σ) α) s := by
  have hback : ∀ changed : Bool,
      Function.update (Function.update s.1.changed block changed) block false = s.1.changed := by
    intro changed
    rw [Function.update_idem, ← fresh, Function.update_eq_self]
  have hunchanged : Function.update s.1.changed block false = s.1.changed := by
    rw [← fresh, Function.update_eq_self]
  rw [onStack, Work.within, Projection.inSection, Work.bracket]
  simp only [bind, EStateM.bind, run_enter]
  cases p.push view (s.1.stack, s.2) with
  | error e t => rfl
  | ok changed t =>
    simp only [Work.ensuring_apply, onStack, Work.within]
    cases changed with
    | false =>
      simp only [hunchanged, Bool.false_eq_true, ↓reduceIte]
      cases body t with
      | ok a u =>
        simp only [EStateM.bind, run_leave, fresh]
        rfl
      | error e u =>
        simp only [EStateM.bind, run_leave, fresh]
        rfl
    | true =>
      simp only [↓reduceIte, Work.ensuring_apply]
      cases body t with
      | ok a u =>
        simp only [EStateM.bind, run_leave, Function.update_self, ↓reduceIte, hback]
        cases p.pop u <;> rfl
      | error e u =>
        simp only [EStateM.bind, run_leave, Function.update_self, ↓reduceIte, hback]
        cases p.pop u <;> rfl

end ProjectionMove

namespace Work

variable {ε σ τ α : Type} {R : σ → τ → Prop}

theorem Keeps.onStack {I : SectionStack × σ → Prop} {work : Work ε (SectionStack × σ) α}
    (h : work.Keeps I) :
    (ProjectionUse.onStack work).Keeps fun s => I (s.1.stack, s.2) :=
  fun s hs => ends_within.mpr (h (s.1.stack, s.2) hs)

theorem Matches.onStack {work : Work ε (SectionStack × σ) α} {other : Work ε (SectionStack × τ) α}
    (h : Matches (Paired R) work other) :
    Matches (Paired R) (ProjectionUse.onStack work) (ProjectionUse.onStack other) := by
  refine h.within (fun s t hst => ⟨congrArg ProjectionUse.stack hst.1, hst.2⟩) ?_
  intro s t hst s' t' hafter
  refine ⟨?_, hafter.2⟩
  rw [hst.1, hafter.1]

end Work

namespace Projection

variable {ε σ : Type} {p : Projection ε σ} {R : σ → σ → Prop} {K : σ → Prop}

theorem Harmless.move (harmless : p.Harmless K) (move : ProjectionMove ε) :
    (move.run p).Keeps fun s => p.Tidy K (s.1.stack, s.2) := by
  have hmark : ∀ block changed, (mark block changed : Work ε (ProjectionUse × σ) Unit).Keeps
      fun s => p.Tidy K (s.1.stack, s.2) :=
    fun _ _ => Work.keeps_modify fun _ hs => hs
  cases move with
  | call c => exact (harmless.call c).onStack
  | enter block view =>
    exact (harmless.push view).onStack.bind fun changed =>
      (hmark block changed).bind fun _ => Work.keeps_pure _
  | leave block =>
    refine Work.keeps_get.bind fun s => ?_
    split
    next =>
      exact (hmark block false).bind fun _ => harmless.pop.onStack.bind fun _ => Work.keeps_pure _
    next => exact Work.keeps_pure _

theorem Alike.move (alike : Alike R p p) (move : ProjectionMove ε) :
    Work.Matches (Paired R) (move.run p) (move.run p) := by
  have hmark : ∀ block changed, Work.Matches (ε := ε) (Paired R) (mark (σ := σ) block changed)
      (mark block changed) := by
    intro block changed
    refine Work.matches_modify fun s t hst => ⟨?_, hst.2⟩
    rw [hst.1]
  cases move with
  | call c => exact (alike.call c).onStack
  | enter block view =>
    exact (alike.push view).onStack.bind fun changed =>
      (hmark block changed).bind fun _ => Work.matches_pure _
  | leave block =>
    refine Work.matches_get fun s t hst => ?_
    rw [hst.1]
    split
    next =>
      exact (hmark block false).bind fun _ => alike.pop.onStack.bind fun _ =>
        Work.matches_pure _
    next => exact Work.matches_pure _

end Projection

end LogContext
