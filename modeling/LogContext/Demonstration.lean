import LogContext.Provider
import LogContext.Session
import LogContext.Stream

namespace LogContext

/-- How nested sections tag records with the data of the innermost execution, in two parts. -/
inductive Demonstration where
  | nested
  | stream
  deriving DecidableEq, Repr

namespace Demonstration

def all : List Demonstration := [.nested, .stream]

def name : Demonstration → String
  | .nested => "nested"
  | .stream => "stream"

def ofName? (name : String) : Option Demonstration := all.find? (·.name = name)

def logger : Logger := ⟨.text "Example", true, .empty, none⟩

def provider : Provider := .shared none (some "flowctx-example")

def config : Demonstration → Config
  | .nested => { businessKey := some "businessKey" }
  | .stream => .standard

def setup (part : Demonstration) (clock clockStep : Int) : Setup where
  backing := .contextual "MDC"
  initial := []
  projections := [⟨part.config, .ambient, none⟩]
  clock := clock
  clockStep := clockStep
  sink := provider.sink

abbrev Run := Work Failure (Session Unit) Unit

def say (setup : Setup) (message : String) : Run :=
  Session.shared (World.emit setup logger .info message .empty)

def process : Execution where
  activityId := some "start"
  processDefinitionId := some "invoice:1"
  processInstanceId := some "pi-1"
  businessKey := some "order-42"

def overriding (pairs : List (String × String)) : Overrides :=
  .ofPairs (pairs.map fun pair => (pair.1, some pair.2))

def inSection (setup : Setup) (execution : Execution) (body : Run) : Run :=
  Session.inSection setup 0 (.ofExecution execution) fun _ => body

def runNested (setup : Setup) : Run := do
  Session.inApplication (some "invoice-app") do
    inSection setup process do
      say setup "process started"
      inSection setup (process.derive (overriding [("activity_id", "approve")])) do
        say setup "approving invoice"
        let subProcess := overriding [("activity_id", "notify"), ("process_instance_id", "pi-2")]
        inSection setup (process.derive subProcess) do
          say setup "called sub process"
        say setup "back in approve"
      say setup "process ended"
  say setup "outside any section"

def activity (name : String) : Execution where
  activityId := some name
  processInstanceId := some "pi-7"

def listener (setup : Setup) : Observer Failure (Session Unit) String where
  next := fun name => say setup ("handling " ++ name)
  error := fun e => throw e
  completed := pure ()

def feed (source : Observer Failure (Session Unit) String) : List String → Run
  | [] => source.completed
  | item :: rest => do
    source.next item
    feed source rest

def runStream (setup : Setup) : Run :=
  feed ((listener setup).withinSections (fun name => pure (activity name)) (inSection setup))
    ["receive", "check", "ship"]

def run (part : Demonstration) (setup : Setup) : Run :=
  match part with
  | .nested => runNested setup
  | .stream => runStream setup

/-- Runs parts one after the other in one world; each has a projection of its own. -/
def runAll (clock clockStep : Int) : List Demonstration → World → World
  | [], world => world
  | part :: rest, world =>
    let setup := part.setup clock clockStep
    match run part setup { Session.start setup with world := world } with
    | .ok _ s | .error _ s => runAll clock clockStep rest s.world

/-- The text that the parts write. -/
def text (clock clockStep : Int) (parts : List Demonstration) : List Char :=
  (runAll clock clockStep parts (setup .nested clock clockStep).world).written

end Demonstration

end LogContext
