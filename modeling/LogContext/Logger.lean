import LogContext.CallShape
import LogContext.LogRecord

namespace LogContext

/-- The levels of a logger's calls. -/
inductive LogLevel where
  | debug
  | info
  | warning
  | error
  deriving DecidableEq, Repr

def LogLevel.name : LogLevel → String
  | .debug => "debug"
  | .info => "info"
  | .warning => "warning"
  | .error => "error"

def LogLevel.severity : LogLevel → Severity
  | .debug => .first .debug
  | .info => .first .info
  | .warning => .first .warn
  | .error => .first .error

def loggerName : String := "OTelLogger"

/-- The message goes by place, attributes go by name. -/
def LogLevel.call (level : LogLevel) : CallShape :=
  ⟨loggerName ++ "." ++ level.name, [receiverName, "message"]⟩

/-- Makes records of calls. Every record carries the source, the entries of the diagnostic store if
the logger tags with one, and the static attributes. -/
structure Logger where
  source : Value
  tagged : Bool
  attributes : Attributes
  threshold : Option Severity

namespace Logger

/-- Records below the threshold are dropped. -/
def admits (logger : Logger) (severity : Severity) : Bool :=
  logger.threshold.all fun least => least.number ≤ severity.number

def deriveCall : CallShape := ⟨loggerName ++ ".with_attributes", [receiverName]⟩

/-- A logger with further static attributes. The key `source` names its source instead. -/
def derive (logger : Logger) (attributes : Attributes) : Logger :=
  { logger with
    source := (attributes.find? "source").getD logger.source
    attributes := logger.attributes.insertAll (attributes.erase "source").pairs }

def tableAttributes (entries : OrderedMap String String) : List (String × Value) :=
  entries.pairs.map fun pair => (pair.1, .text pair.2)

/-- The source, the entries of the store, the static attributes and those of the call: of a
repeated key the first place and the last value. -/
def merged (logger : Logger) (entries : OrderedMap String String) (attributes : Attributes) :
    Attributes :=
  OrderedMap.ofPairs ((LogRecord.sourceKey, logger.source) :: tableAttributes entries ++
    logger.attributes.pairs ++ attributes.pairs)

def record (logger : Logger) (entries : OrderedMap String String) (level : LogLevel)
    (message : String) (attributes : Attributes) (timestamp : Int) : LogRecord where
  timestamp := some timestamp
  body := .text message
  severityText := some level.severity.name
  severity := some level.severity
  attributes := logger.merged entries attributes

end Logger

end LogContext
