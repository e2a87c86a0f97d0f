import LogContext.Program
import LogContext.World

namespace LogContext

/-- The stacks of the projections, what they share, and the entries written so far. -/
structure Session (ω : Type) where
  sectionStacks : List SectionStack
  world : World
  entries : List ω

namespace Session

variable {ω : Type}

def start (setup : Setup) : Session ω :=
  ⟨setup.projections.map fun _ => .empty, setup.world, []⟩

def stack (s : Session ω) (index : Nat) : SectionStack := s.sectionStacks[index]?.getD .empty

/-- Work on what is shared. -/
def shared {α : Type} (work : Work Failure World α) : Work Failure (Session ω) α :=
  work.within Session.world fun w s => { s with world := w }

/-- Work on one stack and what is shared. -/
def focus {α : Type} (index : Nat) (work : Work Failure (SectionStack × World) α) :
    Work Failure (Session ω) α :=
  work.within (fun s => (s.stack index, s.world)) fun (st, w) s =>
    { s with sectionStacks := s.sectionStacks.set index st, world := w }

/-- Work by a projection of the setup on its stack. -/
def byProjection {α : Type} (setup : Setup) (index : Nat) (none : α)
    (work : Projection Failure World → Work Failure (SectionStack × World) α) :
    Work Failure (Session ω) α :=
  match setup.projections[index]? with
  | .none => pure none
  | .some p => focus index (work (setup.projection index p))

/-- Runs a body inside a section of a projection; the body may use every projection. -/
def inSection {α : Type} (setup : Setup) (index : Nat) (view : ExecutionView Failure)
    (body : Bool → Work Failure (Session ω) α) : Work Failure (Session ω) α :=
  Work.bracket (byProjection setup index false (·.push view)) (byProjection setup index () (·.pop))
    body

/-- Runs a body in another context and comes back to the one before. -/
def inContext {α : Type} (context : Context) (body : Work Failure (Session ω) α) :
    Work Failure (Session ω) α := do
  let before := (← get).world.space.current
  let switch (c : Context) : Work Failure (Session ω) Unit :=
    shared (modify fun w => { w with space := w.space.switch c })
  switch context
  body.ensuring (switch before)

/-- Runs a body while another application is current. -/
def inApplication {α : Type} (name : Option String) (body : Work Failure (Session ω) α) :
    Work Failure (Session ω) α := do
  let before := (← get).world.space.application
  let make (name : Option String) : Work Failure (Session ω) Unit :=
    shared (modify fun w => { w with space := w.space.setApplication name })
  make name
  body.ensuring (make before)

def sight (setup : Setup) (s : Session ω) : Sight :=
  ⟨s.world.sortedEntries setup.backing, s.sectionStacks.map SectionStack.sectionCount⟩

end Session

end LogContext
