import LogContext.ExecutionSource
import LogContext.Session

namespace LogContext

inductive SessionStep where
  | push (source : ExecutionSource)
  | pop
  | clear
  | sync
  | fetch
  | latest (name : String)
  | pushOffers (offers : List Offer)
  /-- Writes to the store from outside. -/
  | store (key value : String)
  | discard (key : String)
  | log (level : LogLevel) (message : String) (attributes : Attributes)
  | stop (message : String)

inductive SessionBlock where
  | section (source : ExecutionSource)
  | application (name : Option String)
  | copied
  | fresh

/-- A step or block of one of the projections, which may catch what tells its program to stop. -/
structure Addressed (α : Type) where
  action : α
  projection : Nat
  catches : Bool

abbrev SessionProgram := Program (Addressed SessionStep) (Addressed SessionBlock)

inductive SessionLabel where
  | step (step : SessionStep)
  | entered
  | left
  | block (block : SessionBlock)

inductive SessionResult where
  | nothing
  | flag (b : Bool)
  | text (value : Option String)
  | failed (failure : Failure)

/-- A result, with what was noted since the last entry, and what the store and the stack of the
projection hold. -/
structure SessionEntry where
  label : SessionLabel
  result : SessionResult
  trace : List TraceEvent
  written : List Char
  stored : List (String × String)
  names : List String
  stack : SectionStack

namespace SessionProgram

abbrev Run (α : Type) := Work Failure (Session SessionEntry) α

def setupNames (setup : Setup) (index : Nat) : List String :=
  (setup.projections[index]?.map fun p => p.config.propertyNames).getD []

/-- Writes an entry and starts to note anew. -/
def enter (setup : Setup) (index : Nat) (label : SessionLabel) (result : SessionResult) : Run Unit :=
  modify fun s =>
    let entry : SessionEntry :=
      { label, result
        trace := s.world.trace
        written := s.world.written
        stored := s.world.sortedEntries setup.backing
        names := setupNames setup index
        stack := s.stack index }
    { s with
      entries := s.entries ++ [entry]
      world := { s.world with trace := [], written := [] } }

/-- A projection without a logger has nothing to log with. -/
def log (setup : Setup) (index : Nat) (level : LogLevel) (message : String)
    (attributes : Attributes) : Run Unit :=
  match setup.projections[index]?.bind ProjectionSetup.logger with
  | none => throw (.missingCall "NoneType" level.name)
  | some logger => Session.shared (World.log setup logger level message attributes)

def perform (setup : Setup) (index : Nat) : SessionStep → Run SessionResult
  | .push source => do
    let view ← Work.ofExcept source.view
    .flag <$> Session.byProjection setup index false (·.push view)
  | .pop => (fun _ => .nothing) <$> Session.byProjection setup index () (·.pop)
  | .clear => (fun _ => .nothing) <$> Session.byProjection setup index () (·.clear.beside)
  | .sync => (fun _ => .nothing) <$> Session.byProjection setup index () (·.sync)
  | .fetch => .flag <$> Session.byProjection setup index false (·.fetch)
  | .latest name => return .text (((← get).stack index).latest name)
  | .pushOffers offers => .flag <$> Session.byProjection setup index false (·.pushOffers offers)
  | .store key value => do
    Session.shared (modify (World.store setup.backing key value))
    pure .nothing
  | .discard key => do
    Session.shared (modify (World.discard setup.backing key))
    pure .nothing
  | .log level message attributes => do
    log setup index level message attributes
    pure .nothing
  | .stop message => throw (.stopped message)

/-- Runs the body of a block where it belongs, and tells the label of its last entry. -/
def inBlock (setup : Setup) (index : Nat) (body : Run Unit) : SessionBlock → Run SessionLabel
  | .section source => do
    let view ← Work.ofExcept source.view
    Session.inSection setup index view fun changed => do
      enter setup index .entered (.flag changed)
      body
    pure .left
  | .application name => do
    Session.inApplication name body
    pure (.block (.application name))
  | .copied => do
    Session.inContext (← get).world.space.current body
    pure (.block .copied)
  | .fresh => do
    Session.inContext .empty body
    pure (.block .fresh)

/-- A failure is entered in place of a result, unless it ends the program. The steps that follow
still run if the failure ends only a step, or if it is caught here. -/
def settle {α : Type} (setup : Setup) (target : Addressed α) (label : SessionLabel)
    (work : Run (SessionLabel × SessionResult)) : Run Unit := do
  match ← work.attempt with
  | .ok (label, result) => enter setup target.projection label result
  | .error e =>
    if e.reach = .program then throw e
    enter setup target.projection label (.failed e)
    if e.reach = .catcher && !target.catches then throw e

def run (setup : Setup) : SessionProgram → Run Unit
  | .done => pure ()
  | .act step rest => do
    settle setup step (.step step.action) do
      let result ← perform setup step.projection step.action
      pure (.step step.action, result)
    run setup rest
  | .block head body rest => do
    settle setup head (.block head.action) do
      let label ← inBlock setup head.projection (run setup body) head.action
      pure (label, .nothing)
    run setup rest

/-- What is written after the last entry, or was held back, is the rest. -/
def report (setup : Setup) (s : Session SessionEntry) : List SessionEntry × List Char :=
  (s.entries, (s.world.flush setup.sink).written)

/-- Runs a program from the start. A program that is told to stop just ends. -/
def outcome (setup : Setup) (program : SessionProgram) :
    Except Failure (List SessionEntry × List Char) :=
  match run setup program (Session.start setup) with
  | .ok _ s => .ok (report setup s)
  | .error e s => if e.reach = .program then .error e else .ok (report setup s)

/-- All that is written in a run. -/
def wholeText (entries : List SessionEntry) (rest : List Char) : List Char :=
  entries.flatMap SessionEntry.written ++ rest

end SessionProgram

end LogContext
