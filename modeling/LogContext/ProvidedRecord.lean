import LogContext.LogRecord

namespace LogContext

/-- What a provider does not take as it is. -/
inductive AttributeWarning where
  /-- A field or an attribute that has no name. -/
  | unnamed
  /-- A value of a kind that is no plain data. -/
  | foreign (kind : String)
  deriving DecidableEq, Repr

namespace AttributeWarning

def message : AttributeWarning → String
  | .unnamed =>
    "invalid attribute key ``. must be non-empty string. Dropping key from attributes."
  | .foreign kind =>
    "Invalid type `" ++ kind ++ "` for attribute value. Expected one of bool, str, None, bytes, " ++
      "int, float or a Mapping or Sequence of those types. Value's __str__ method will be called " ++
      "if it exists, otherwise the value will be replaced with None."

def line (warning : AttributeWarning) : List Char := warning.message.toList ++ ['\n']

end AttributeWarning

namespace Value

/-- The kind of a value that is no plain data. -/
def foreignKind? : Value → Option String
  | .marker => some "<enum '_Marker'>"
  | .role _ => some "<enum 'ContextRole'>"
  | .execution _ => some "<class 'flowctx.execution.ExecutionSnapshot'>"
  | _ => none

mutual

/-- What a provider takes a value for: nobody can change its lists any more, its objects have no
field without a name, and what is no plain data has become its text. -/
def provided : Value → Value
  | .list items | .tuple items => .tuple (providedItems items)
  | .object fields => .object (providedFields fields)
  | .marker => .text (String.ofList (plain .marker))
  | .role r => .text (String.ofList (plain (.role r)))
  | .execution e => .text (String.ofList (plain (.execution e)))
  | value => value

def providedItems : List Value → List Value
  | [] => []
  | value :: rest => value.provided :: providedItems rest

def providedFields : List (String × Value) → List (String × Value)
  | [] => []
  | (key, value) :: rest =>
    if key.isEmpty then providedFields rest
    else (key, value.provided) :: providedFields rest

end

mutual

/-- What a provider warns of, in the order in which it goes through a value. What is left out is
not looked into. -/
def warnings : Value → List AttributeWarning
  | .list items | .tuple items => itemWarnings items
  | .object fields => fieldWarnings fields
  | value => (value.foreignKind?.map .foreign).toList

def itemWarnings : List Value → List AttributeWarning
  | [] => []
  | value :: rest => value.warnings ++ itemWarnings rest

def fieldWarnings : List (String × Value) → List AttributeWarning
  | [] => []
  | (key, value) :: rest =>
    (if key.isEmpty then [.unnamed] else value.warnings) ++ fieldWarnings rest

end

theorem keys_providedFields (fields : List (String × Value)) :
    (providedFields fields).map Prod.fst = (fields.map Prod.fst).filter (!·.isEmpty) := by
  induction fields with
  | nil => rfl
  | cons field rest ih => cases h : field.1.isEmpty <;> simp [providedFields, h, ih]

end Value

namespace LogRecord

/-- The record that a provider takes in the place of another one. Attributes are treated like the
fields of an object. -/
def provided (record : LogRecord) : LogRecord :=
  { record with
    attributes := ⟨Value.providedFields record.attributes.pairs, by
      rw [Value.keys_providedFields]
      exact record.attributes.distinct.sublist List.filter_sublist⟩ }

/-- The lines in which a provider warns of a record. -/
def warningLines (record : LogRecord) : List Char :=
  (Value.fieldWarnings record.attributes.pairs).flatMap AttributeWarning.line

end LogRecord

end LogContext
