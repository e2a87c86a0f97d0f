import LogContext.ContextSpace
import LogContext.Failure
import LogContext.Logger
import LogContext.Projection
import LogContext.ProvidedRecord
import LogContext.RecordExport

namespace LogContext

/-- Where the entries of the diagnostic store are kept. -/
inductive Backing where
  /-- One table for everyone. Calls leave a trace, and some of them are refused. -/
  | recording (refused : List (StoreCall × String))
  /-- A table per context, under the name of the store. -/
  | contextual (store : String)
  deriving Repr

/-- What happens to the records that loggers make. -/
inductive RecordSink where
  | trace
  | discard
  /-- A line each, at once. -/
  | immediate (format : LineFormat)
  /-- Lines for all of them, at the end. -/
  | batched (format : LineFormat)
  deriving DecidableEq, Repr

/-- How a projection learns the current application. -/
inductive Resolver where
  /-- The application of the current context. -/
  | ambient
  /-- Given answers in order; the last one is repeated. -/
  | answers (names : List (Option String))
  | failing (message : String)
  deriving Repr

inductive StreamSignal where
  | next
  | error
  | completed
  | dispose
  deriving DecidableEq, Repr

/-- The store in the order of its keys, and the number of open sections per projection. -/
structure Sight where
  stored : List (String × String)
  counts : List Nat
  deriving Repr

/-- What is noted while a session runs. -/
inductive TraceEvent where
  | lookedUp (key : String)
  | put (key value : String)
  | removed (key : String)
  | resolved
  | logged (record : LogRecord)
  | fired (signal : StreamSignal)
  | selected (stage : Nat) (item : Option String)
  | arrived (item : Option String) (sight : Sight)
  | handled (item : Option String)
  | failed (failure : Failure) (sight : Sight)
  | completed (sight : Sight)

structure ProjectionSetup where
  config : Config
  resolver : Resolver
  logger : Option Logger

/-- What is fixed before a session starts. -/
structure Setup where
  backing : Backing
  initial : List (String × String)
  projections : List ProjectionSetup
  clock : Int
  clockStep : Int
  sink : RecordSink

/-- All that projections share. -/
structure World where
  space : ContextSpace
  table : Table
  /-- The answers that each projection's resolver still has to give. -/
  answers : List (List (Option String))
  clock : Int
  trace : List TraceEvent
  pending : List LogRecord
  written : List Char

namespace World

def note (event : TraceEvent) : Work Failure World Unit :=
  modify fun w => { w with trace := w.trace ++ [event] }

/-- The entries of the store as they are seen now. -/
def entries (backing : Backing) (w : World) : Table :=
  match backing with
  | .recording _ => w.table
  | .contextual store => w.space.entries store

/-- A copy of the entries, as the store hands it out: a table of its own, which belongs to no context. -/
def snapshot : Backing → Work Failure World Table
  | .recording _ => return (← get).table
  | .contextual store => modifyGet fun w =>
    let (ref, space) := w.space.snapshot store []
    (space.tableAt ref, { w with space })

def sortedEntries (backing : Backing) (w : World) : List (String × String) :=
  (w.entries backing).pairs.mergeSort fun a b => a.1 ≤ b.1

def refuse (refused : List (StoreCall × String)) (call : StoreCall) (key : String) :
    Work Failure World Unit :=
  if refused.contains (call, key) then throw (.refusedCall call key) else pure ()

def lookUp (backing : Backing) (key : String) : Work Failure World (Option String) :=
  match backing with
  | .recording refused => do
    note (.lookedUp key)
    refuse refused .get key
    return (← get).table.find? key
  | .contextual store => modifyGet fun w =>
    let (value, space) := w.space.get store key
    (value, { w with space })

/-- A write that leaves no trace and is never refused. -/
def store (backing : Backing) (key value : String) (w : World) : World :=
  match backing with
  | .recording _ => { w with table := w.table.insert key value }
  | .contextual store => { w with space := w.space.put store key value }

/-- A removal that leaves no trace and is never refused. -/
def discard (backing : Backing) (key : String) (w : World) : World :=
  match backing with
  | .recording _ => { w with table := w.table.erase key }
  | .contextual store => { w with space := w.space.remove store key }

/-- Takes all entries out of the store. -/
def wipe (backing : Backing) (w : World) : World :=
  match backing with
  | .recording _ => { w with table := .empty }
  | .contextual store => { w with space := w.space.clear store }

/-- A refused call is traced before it fails, and changes nothing. -/
def put (backing : Backing) (key value : String) : Work Failure World Unit := do
  match backing with
  | .recording refused =>
    note (.put key value)
    refuse refused .put key
  | .contextual _ => pure ()
  modify (store backing key value)

def remove (backing : Backing) (key : String) : Work Failure World Unit := do
  match backing with
  | .recording refused =>
    note (.removed key)
    refuse refused .remove key
  | .contextual _ => pure ()
  modify (discard backing key)

/-- The next of the given answers; the last one stays. -/
def nextAnswer : List (Option String) → Option String × List (Option String)
  | [] => (none, [])
  | [name] => (name, [name])
  | name :: rest => (name, rest)

def resolve (index : Nat) : Resolver → Work Failure World (Option String)
  | .ambient => return (← get).space.application
  | .answers _ => do
    note .resolved
    modifyGet fun w =>
      let (name, rest) := nextAnswer (w.answers[index]?.getD [])
      (name, { w with answers := w.answers.set index rest })
  | .failing message => do
    note .resolved
    throw (.raised message)

/-- Reads the clock, which then moves on. -/
def tick (step : Int) : Work Failure World Int :=
  modifyGet fun w => (w.clock, { w with clock := w.clock + step })

def write (text : List Char) : Work Failure World Unit :=
  modify fun w => { w with written := w.written ++ text }

/-- A record that is not just traced goes to a provider, which warns at once, also of a record that
it does not write. -/
def deliver (sink : RecordSink) (record : LogRecord) : Work Failure World Unit :=
  match sink with
  | .trace => note (.logged record)
  | .discard => write record.warningLines
  | .immediate format => do
    write record.warningLines
    write (exportBatch format [record.provided]).2
  | .batched _ => do
    write record.warningLines
    modify fun w => { w with pending := w.pending ++ [record.provided] }

/-- The clock is read for a record that is made, and for no other. The entries are read where they are,
which shows the same as a `snapshot` and leaves no table behind (`emit_matches_copying`). -/
def emit (setup : Setup) (logger : Logger) (level : LogLevel) (message : String)
    (attributes : Attributes) : Work Failure World Unit := do
  if logger.admits level.severity then
    let w ← get
    let entries := if logger.tagged then w.entries setup.backing else .empty
    let timestamp ← tick setup.clockStep
    deliver setup.sink (logger.record entries level message attributes timestamp)

/-- A call from outside, which hands its attributes over by name. -/
def log (setup : Setup) (logger : Logger) (level : LogLevel) (message : String)
    (attributes : Attributes) : Work Failure World Unit := do
  Work.ofExcept (level.call.check attributes.keys)
  emit setup logger level message attributes

/-- At most so many records are exported together. -/
def batchSize : Nat := 512

def chunks {α : Type} (size : Nat) : Nat → List α → List (List α)
  | 0, _ => []
  | fuel + 1, items =>
    if items.isEmpty then [] else items.take size :: chunks size fuel (items.drop size)

/-- Writes the lines of the records that wait. -/
def flush (sink : RecordSink) (w : World) : World :=
  match sink with
  | .batched format =>
    let batches := chunks batchSize w.pending.length w.pending
    { w with pending := [], written := w.written ++ (exportBatches format batches).2 }
  | _ => w

end World

namespace Setup

/-- The store holds the initial entries, in the context that starts. -/
def world (setup : Setup) : World :=
  let blank : World :=
    { space := .start, table := .empty, clock := setup.clock, trace := [], pending := []
      written := []
      answers := setup.projections.map fun p => match p.resolver with
        | .answers names => names
        | _ => [] }
  setup.initial.foldl (fun w pair => World.store setup.backing pair.1 pair.2 w) blank

def projection (setup : Setup) (index : Nat) (p : ProjectionSetup) : Projection Failure World where
  config := p.config
  lookUp := World.lookUp setup.backing
  put := World.put setup.backing
  remove := World.remove setup.backing
  application := World.resolve index p.resolver
  report := fun message sections =>
    match p.logger with
    | none => pure ()
    | some logger => World.emit setup logger .debug message
        (.ofPairs (sections.toList.map fun n : Nat => ("sections", .int n)))

end Setup

end LogContext
