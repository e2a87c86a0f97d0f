import LogContext.Config
import LogContext.QuotedText
import LogContext.ShortestDecimal

namespace LogContext

/-- What a log record can carry as its body or as an attribute. -/
inductive Value where
  | null
  | bool (b : Bool)
  | int (n : Int)
  | float (x : Binary64)
  | text (s : String)
  | list (items : List Value)
  /-- A list that nobody changes any more. -/
  | tuple (items : List Value)
  /-- Fields in order; their keys are distinct. -/
  | object (fields : List (String × Value))
  /-- The mark of a property that was set to nothing. -/
  | marker
  | role (role : Role)
  | execution (e : Execution)
  deriving Repr

def separator : List Char := [',', ' ']

/-- Texts one after the other, with a comma and a space between them. -/
def commaJoin : List (List Char) → List Char
  | [] => []
  | [t] => t
  | t :: rest => t ++ separator ++ commaJoin rest

theorem commaJoin_cons_cons (text next : List Char) (rest : List (List Char)) :
    commaJoin (text :: next :: rest) = text ++ separator ++ commaJoin (next :: rest) := rfl

/-- A single item has a comma after it, too. -/
def tupleText : List (List Char) → List Char
  | [item] => '(' :: (item ++ [',', ')'])
  | items => '(' :: (commaJoin items ++ [')'])

def Role.constant (role : Role) : List Char :=
  "ContextRole.".toList ++ role.constantName.toList

def optionLiteral : Option String → List Char
  | none => "None".toList
  | some s => quoted s.toList

/-- All fields of an execution, as it would be written to make it. -/
def Execution.literal (e : Execution) : List Char :=
  "ExecutionSnapshot(".toList ++
    commaJoin (ExecutionField.all.map fun f => f.name.toList ++ '=' :: optionLiteral (e.get f)) ++
    [')']

/-- Executions are fixed; what is said of an attempt to give a field another value. -/
def Execution.assignmentRefusal (name : String) : String :=
  "cannot assign to field " ++ String.ofList (quoted name.toList)

namespace Value

mutual

/-- A value as a literal: texts are quoted, lists and objects hold literals. -/
def literal : Value → List Char
  | .null => "None".toList
  | .bool true => "True".toList
  | .bool false => "False".toList
  | .int n => intDigits n
  | .float x => x.text
  | .text s => quoted s.toList
  | .list items => '[' :: (commaJoin (literalItems items) ++ [']'])
  | .tuple items => tupleText (literalItems items)
  | .object fields => '\x7b' :: (commaJoin (literalFields fields) ++ ['\x7d'])
  | .marker => "EXPLICIT_NULL".toList
  | .role r => '<' :: r.constant ++ ": ".toList ++ quoted r.name.toList ++ ['>']
  | .execution e => e.literal

def literalItems : List Value → List (List Char)
  | [] => []
  | value :: rest => value.literal :: literalItems rest

def literalFields : List (String × Value) → List (List Char)
  | [] => []
  | (key, value) :: rest => (quoted key.toList ++ ": ".toList ++ value.literal) :: literalFields rest

end

/-- A value as plain text: a text stands for itself, a constant for its name. -/
def plain : Value → List Char
  | .text s => s.toList
  | .marker => "_Marker.EXPLICIT_NULL".toList
  | .role r => r.constant
  | value => value.literal

end Value

end LogContext
