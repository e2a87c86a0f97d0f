import LogContext.World

namespace LogContext

inductive LoggerStep where
  | log (logger : Nat) (level : LogLevel) (message : String) (attributes : Attributes)
  | derive (logger : Nat) (attributes : Attributes)
  | put (key value : String)
  | remove (key : String)
  | clear

/-- Loggers that were derived from each other, in the order in which they were made. -/
structure LoggerRun where
  loggers : List Logger
  world : World

namespace LoggerRun

def perform (setup : Setup) : LoggerStep → Work Failure LoggerRun Unit
  | .log index level message attributes => do
    match (← get).loggers[index]? with
    | none => pure ()
    | some logger =>
      (World.log setup logger level message attributes).within LoggerRun.world
        fun world s => { s with world }
  | .derive index attributes => do
    Work.ofExcept (Logger.deriveCall.check attributes.keys)
    modify fun s =>
      { s with loggers := s.loggers ++ (s.loggers[index]?.map (·.derive attributes)).toList }
  | .put key value => modify fun s =>
    { s with world := World.store setup.backing key value s.world }
  | .remove key => modify fun s => { s with world := World.discard setup.backing key s.world }
  | .clear => modify fun s => { s with world := World.wipe setup.backing s.world }

/-- What each step left in the trace. A step that fails leaves no answer at all. -/
def run (setup : Setup) : List LoggerStep → LoggerRun → Except Failure (List (List TraceEvent))
  | [], _ => .ok []
  | step :: rest, s =>
    match perform setup step s with
    | .error e _ => .error e
    | .ok _ s => do
      let events := s.world.trace
      return events :: (← run setup rest { s with world := { s.world with trace := [] } })

def outcome (setup : Setup) (logger : Logger) (steps : List LoggerStep) :
    Except Failure (List (List TraceEvent)) :=
  run setup steps ⟨[logger], setup.world⟩

end LoggerRun

end LogContext
