import LogContext.ExecutionSource
import LogContext.Session
import LogContext.Stream

namespace LogContext

/-- An item of a stream, and the execution that belongs to it. -/
structure StreamItem where
  id : Option String
  source : ExecutionSource

/-- Which execution a stage opens a section for. -/
inductive Selector where
  /-- The one that belongs to the item. -/
  | own
  /-- An activity with the item's identifier. -/
  | activity
  /-- The one that belongs to the item, and what goes on is its activity alone. -/
  | itself
  deriving DecidableEq, Repr

/-- A stage of a stream, for one of the projections. It refuses to select for some items. -/
structure Stage where
  projection : Nat
  selector : Selector
  refused : List (Option String)

inductive StreamEvent where
  | next (item : StreamItem)
  | error (message : String)
  | completed
  | dispose

def StreamEvent.signal : StreamEvent → StreamSignal
  | .next _ => .next
  | .error _ => .error
  | .completed => .completed
  | .dispose => .dispose

/-- Where the events of a stream come from. -/
inductive StreamSource where
  /-- A list that is sent as a whole. A failure of its receiver is sent to it as an error. -/
  | cold
  /-- Events that are fired one by one, each with a trace; who fires them gets the failures. -/
  | live
  deriving DecidableEq, Repr

/-- What the last receiver does, once, when an item arrives. -/
inductive ReactionKind where
  | fail (message : String)
  | fire (events : List StreamEvent)

structure Reaction where
  item : Option String
  kind : ReactionKind

structure StreamRun where
  session : Session Unit
  ended : Bool
  reactions : List Reaction

abbrev StreamWork (α : Type) := Work Failure StreamRun α

namespace StreamRun

def start (setup : Setup) (reactions : List Reaction) : StreamRun :=
  ⟨Session.start setup, false, reactions⟩

def inSession {α : Type} (work : Work Failure (Session Unit) α) : StreamWork α :=
  work.within StreamRun.session fun session s => { s with session }

def note (event : TraceEvent) : StreamWork Unit := inSession (Session.shared (World.note event))

def sight (setup : Setup) : StreamWork Sight := return (← get).session.sight setup

def finish (s : StreamRun) : StreamRun := { s with ended := true }

def takeReaction (item : Option String) : StreamWork (Option ReactionKind) :=
  modifyGet fun s =>
    match s.reactions.find? (·.item = item) with
    | none => (none, s)
    | some reaction =>
      (some reaction.kind, { s with reactions := s.reactions.eraseP (·.item = item) })

def inSection (setup : Setup) (index : Nat) (view : ExecutionView Failure)
    (body : StreamWork Unit) : StreamWork Unit :=
  Work.bracket (inSession (Session.byProjection setup index false (·.push view)))
    (inSession (Session.byProjection setup index () (·.pop))) fun _ => body

end StreamRun

namespace Stage

def select (index : Nat) (stage : Stage) (item : StreamItem) :
    StreamWork (ExecutionView Failure) := do
  if stage.selector ≠ .itself then
    StreamRun.note (.selected index item.id)
    if stage.refused.contains item.id then throw (.selection item.id)
  match stage.selector with
  | .activity => pure (.ofExecution { activityId := item.id })
  | _ => Work.ofExcept item.source.view

/-- What a stage passes on of an item. A plain text goes on as itself. -/
def passed (stage : Stage) (item : StreamItem) : Except Failure StreamItem :=
  match stage.selector with
  | .itself =>
    match item.source with
    | .text value => .ok { item with id := some value }
    | source => do
      let activity ← (← source.view) .activityId
      pure { item with id := activity }
  | _ => .ok item

def around (setup : Setup) (index : Nat) (stage : Stage)
    (down : Observer Failure StreamRun StreamItem) : Observer Failure StreamRun StreamItem :=
  (down.comap stage.passed).withinSections (stage.select index)
    (StreamRun.inSection setup stage.projection)

end Stage

namespace StreamRun

/-- The last receiver notes what arrives and then reacts; `fire` sends events into the stream. -/
def watcher (setup : Setup) (fire : List StreamEvent → StreamWork Unit) :
    Observer Failure StreamRun StreamItem where
  next := fun item => do
    note (.arrived item.id (← sight setup))
    match ← takeReaction item.id with
    | some (.fail message) => throw (.raised message)
    | some (.fire events) => fire events
    | none => pure ()
    note (.handled item.id)
  error := fun e => do note (.failed e (← sight setup))
  completed := do note (.completed (← sight setup))

/-- The stages from the source to the last receiver. -/
def chain (setup : Setup) (last : Observer Failure StreamRun StreamItem) (index : Nat) :
    List Stage → Observer Failure StreamRun StreamItem
  | [] => last
  | stage :: rest => stage.around setup index (chain setup last (index + 1) rest)

/-- Where events enter the stream. -/
def entrance (setup : Setup) (stages : List Stage) (fire : List StreamEvent → StreamWork Unit) :
    Observer Failure StreamRun StreamItem :=
  let last := ((watcher setup fire).ending finish).gate StreamRun.ended
  (chain setup last 0 stages).gate StreamRun.ended

def receive (source : Observer Failure StreamRun StreamItem) : StreamEvent → StreamWork Unit
  | .next item => source.next item
  | .error message => source.error (.raised message)
  | .completed => source.completed
  | .dispose => modify finish

def receiveAll (source : Observer Failure StreamRun StreamItem) : List StreamEvent → StreamWork Unit
  | [] => pure ()
  | event :: rest => do
    receive source event
    receiveAll source rest

/-- The entrance for events that are fired at most so deeply within each other. -/
def source (setup : Setup) (stages : List Stage) : Nat → Observer Failure StreamRun StreamItem
  | 0 => entrance setup stages fun _ => pure ()
  | depth + 1 => entrance setup stages (receiveAll (source setup stages depth))

/-- Sends events from outside. Each reaction happens once, so their number bounds the nesting. -/
def send (setup : Setup) (stages : List Stage) (origin : StreamSource) :
    List StreamEvent → StreamWork Unit
  | [] => pure ()
  | event :: rest => do
    if origin = .live then note (.fired event.signal)
    let depth := (← get).reactions.length
    receive (source setup stages depth) event
    send setup stages origin rest

/-- Sends all events. The gate at the entrance keeps out what follows an error. -/
def sendAll (setup : Setup) (stages : List Stage) (origin : StreamSource)
    (events : List StreamEvent) : StreamWork Unit := do
  match ← (send setup stages origin events).attempt with
  | .ok _ => pure ()
  | .error e =>
    match origin with
    | .live => throw e
    | .cold => (source setup stages 0).error e

def report (s : StreamRun) (setup : Setup) : List TraceEvent × Sight :=
  (s.session.world.trace, s.session.sight setup)

/-- All that was noted and what is seen at the end. Stages turn failures into errors, so only a
live stream without stages can fail itself. -/
def outcome (setup : Setup) (stages : List Stage) (reactions : List Reaction)
    (origin : StreamSource) (events : List StreamEvent) :
    Except Failure (List TraceEvent × Sight) :=
  match sendAll setup stages origin events (start setup reactions) with
  | .ok _ s => .ok (s.report setup)
  | .error e _ => .error e

end StreamRun

end LogContext
