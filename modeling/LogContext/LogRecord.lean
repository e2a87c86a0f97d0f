import LogContext.CivilTime
import LogContext.JsonText

namespace LogContext

inductive SeverityBand where
  | trace
  | debug
  | info
  | warn
  | error
  | fatal
  deriving DecidableEq, Repr

/-- Six bands of four steps each, above an unspecified severity. -/
inductive Severity where
  | unspecified
  | step (band : SeverityBand) (step : Fin 4)
  deriving DecidableEq, Repr

namespace SeverityBand

def all : List SeverityBand := [.trace, .debug, .info, .warn, .error, .fatal]

def index : SeverityBand → Nat
  | .trace => 0
  | .debug => 1
  | .info => 2
  | .warn => 3
  | .error => 4
  | .fatal => 5

def name : SeverityBand → String
  | .trace => "TRACE"
  | .debug => "DEBUG"
  | .info => "INFO"
  | .warn => "WARN"
  | .error => "ERROR"
  | .fatal => "FATAL"

end SeverityBand

namespace Severity

def number : Severity → Nat
  | .unspecified => 0
  | .step band k => 1 + 4 * band.index + k

def first (band : SeverityBand) : Severity := .step band 0

/-- The first step of a band has the name of the band. -/
def name : Severity → String
  | .unspecified => "UNSPECIFIED"
  | .step band 0 => band.name
  | .step band 1 => band.name ++ "2"
  | .step band 2 => band.name ++ "3"
  | .step band 3 => band.name ++ "4"

def all : List Severity :=
  .unspecified :: SeverityBand.all.flatMap fun band => [.step band 0, .step band 1, .step band 2,
    .step band 3]

def ofName? (name : String) : Option Severity := all.find? (·.name = name)

end Severity

abbrev Attributes := OrderedMap String Value

structure LogRecord where
  timestamp : Option Int := none
  body : Value := .null
  severityText : Option String := none
  severity : Option Severity := none
  attributes : Attributes := .empty
  deriving Inhabited

namespace LogRecord

/-- A record without a time is from the start of 1970. -/
def nanoseconds (record : LogRecord) : Int := record.timestamp.getD 0

def civilTime (record : LogRecord) : Except TimeError CivilTime :=
  CivilTime.ofNanoseconds record.nanoseconds

theorem civilTime_of_untimed {record : LogRecord} (h : record.timestamp = none) :
    record.civilTime = .ok ⟨1970, 1, 1, 0, 0, 0, 0⟩ := by
  have hstart : (CivilTime.ofNanoseconds 0).toOption = some ⟨1970, 1, 1, 0, 0, 0, 0⟩ := by
    decide +kernel
  rw [civilTime, nanoseconds, h, Option.getD_none]
  cases htime : CivilTime.ofNanoseconds 0 with
  | ok time =>
    rw [htime] at hstart
    exact congrArg Except.ok (Option.some.inj hstart)
  | error e =>
    rw [htime] at hstart
    cases hstart

def sourceKey : String := "log.source"

/-- Attributes that the braces of a text line leave out. -/
def reservedKeys : List String := [sourceKey, "service.name"]

def sourceText (record : LogRecord) : List Char :=
  match record.attributes.find? sourceKey with
  | some value => value.plain
  | none => "Unknown".toList

/-- The attributes of the braces in ascending order of their keys. -/
def contextPairs (record : LogRecord) : List (String × Value) :=
  (record.attributes.pairs.filter fun pair => !reservedKeys.contains pair.1).mergeSort
    fun a b => a.1 ≤ b.1

def contextText (record : LogRecord) : List Char :=
  commaJoin (record.contextPairs.map fun pair => pair.1.toList ++ '=' :: pair.2.plain)

def bracesText (record : LogRecord) : List Char :=
  let context := record.contextText
  if context.isEmpty then [] else ' ' :: '\x7b' :: (context ++ ['\x7d'])

/-- What stands before the body in a text line. -/
def textHead (record : LogRecord) (time : CivilTime) : List Char :=
  time.toSecondText ++ " [".toList ++ (record.severityText.getD "None").toList ++ "] ".toList ++
    record.sourceText ++ record.bracesText ++ "\t: ".toList

/-- Time, level, source, context in braces and the body as a literal. -/
def textLine (record : LogRecord) : Except TimeError (List Char) := do
  let time ← record.civilTime
  pure (record.textHead time ++ record.body.literal ++ ['\n'])

def jsonOption : Option (List Char) → List Char
  | none => "null".toList
  | some text => text

/-- One JSON object on a line of its own. -/
def jsonLine (record : LogRecord) : Except TimeError (List Char) := do
  let time ← record.civilTime
  pure (jsonObject [
    jsonField "timestamp" (jsonString time.toMicroText),
    jsonField "timestamp_ns" (intDigits record.nanoseconds),
    jsonField "severity_text" (jsonOption (record.severityText.map fun s => jsonString s.toList)),
    jsonField "severity_number" (jsonOption (record.severity.map fun s => natDigits s.number)),
    jsonField "body" record.body.json,
    jsonField "attributes" (jsonObject (Value.jsonFields record.attributes.pairs))] ++ ['\n'])

end LogRecord

end LogContext
