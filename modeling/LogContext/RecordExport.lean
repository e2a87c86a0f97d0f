import LogContext.LogRecord

namespace LogContext

inductive LineFormat where
  | text
  | json
  deriving DecidableEq, Repr

namespace LineFormat

def name : LineFormat → String
  | .text => "text"
  | .json => "json"

/-- What is written when nothing else is asked for. -/
def standard : LineFormat := .text

def line (format : LineFormat) (record : LogRecord) : Except TimeError (List Char) :=
  match format with
  | .text => record.textLine
  | .json => record.jsonLine

/-- Names are taken as they are written; a missing name is none of them. -/
def ofName (name : Option String) : Except (Option String) LineFormat :=
  if name = some LineFormat.text.name then .ok .text
  else if name = some LineFormat.json.name then .ok .json
  else .error name

def refusal (name : Option String) : String :=
  "Invalid format: " ++ name.getD "None" ++ ". Choose from 'text' or 'json'."

end LineFormat

section

variable {α ε : Type} (line : α → Except ε (List Char))

/-- A batch is written up to its first record that has no line, for whatever reason; whether all were
written is the result. -/
def exportLines : List α → Bool × List Char
  | [] => (true, [])
  | record :: rest =>
    match line record with
    | .error _ => (false, [])
    | .ok text =>
      let (complete, lines) := exportLines rest
      (complete, text ++ lines)

theorem exportLines_cons {record : α} {text : List Char} (h : line record = .ok text)
    (rest : List α) :
    exportLines line (record :: rest) =
      ((exportLines line rest).1, text ++ (exportLines line rest).2) := by
  rw [exportLines, h]

theorem exportLines_of_error {record : α} {e : ε} (h : line record = .error e) (rest : List α) :
    exportLines line (record :: rest) = (false, []) := by
  rw [exportLines, h]

end

def exportBatch (format : LineFormat) : List LogRecord → Bool × List Char :=
  exportLines format.line

theorem exportBatch_cons (format : LineFormat) {record : LogRecord} {line : List Char}
    (h : format.line record = .ok line) (rest : List LogRecord) :
    exportBatch format (record :: rest) =
      ((exportBatch format rest).1, line ++ (exportBatch format rest).2) :=
  exportLines_cons format.line h rest

/-- Batches are written one after the other, whatever became of those before. -/
def exportBatches (format : LineFormat) (batches : List (List LogRecord)) :
    List Bool × List Char :=
  let results := batches.map (exportBatch format)
  (results.map Prod.fst, results.flatMap Prod.snd)

end LogContext
