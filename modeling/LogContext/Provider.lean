import LogContext.World

namespace LogContext

/-- A service that makes records, and where they go. -/
structure Provider where
  serviceName : String
  serviceVersion : String
  sink : RecordSink
  deriving DecidableEq, Repr

namespace Provider

def standardName : String := "flowctx"

/-- A service always has a name. -/
def nameOf (name : String) : String := if name.isEmpty then "unknown_service" else name

/-- Without a format records go nowhere; otherwise their lines are written at once or in batches. -/
def sinkOf (format : Option LineFormat) (batched : Bool) : RecordSink :=
  match format with
  | none => .discard
  | some format => if batched then .batched format else .immediate format

def configure (name version : Option String) (format : Option LineFormat) (batched : Bool) :
    Provider :=
  ⟨nameOf (name.getD standardName), version.getD "", sinkOf format batched⟩

/-- The provider for everyone is made by the first who asks, and writes text lines at once. -/
def shared (current : Option Provider) (name : Option String) : Provider :=
  current.getD (configure name none (some .text) false)

/-- One who asks for the shared provider and logs a message with it. -/
structure Client where
  serviceName : Option String
  source : String
  message : String
  deriving Repr

def Client.logger (client : Client) : Logger :=
  ⟨.text client.source, false, .empty, none⟩

/-- The provider that each client gets, and the text that its message writes. -/
def serve (setup : Setup) : Option Provider → World → List Client → List (Provider × List Char)
  | _, _, [] => []
  | current, world, client :: rest =>
    let provider := shared current client.serviceName
    let world := { world with written := [] }
    match World.emit { setup with sink := provider.sink } client.logger .info client.message .empty
        world with
    | .ok _ world | .error _ world =>
      (provider, world.written) :: serve setup (some provider) world rest

end Provider

end LogContext
