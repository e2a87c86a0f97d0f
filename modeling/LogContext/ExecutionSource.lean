import LogContext.Failure

namespace LogContext

/-- How a caller comes by the execution it hands over. -/
inductive ExecutionSource where
  | given (view : ExecutionView Failure)
  /-- A plain text stands where an execution should. -/
  | text (value : String)
  /-- The child of another one, with overrides by name. -/
  | child (parent : ExecutionSource) (overrides : Overrides)

namespace ExecutionSource

/-- What a text is called when it cannot answer. -/
def textOwner : String := "str"

def childName : String := "child"

def childCall : CallShape := ⟨"ExecutionSnapshot." ++ childName, [receiverName]⟩

/-- A plain text fails whatever it is asked for. -/
def textView : ExecutionView Failure := fun field => .error (.missingCall textOwner field.name)

/-- A child is made at once: all fields of its parent are read, also those that are overridden. -/
def view : ExecutionSource → Except Failure (ExecutionView Failure)
  | .given view => .ok view
  | .text _ => .ok textView
  | .child (.text _) _ => .error (.missingCall textOwner childName)
  | .child parent overrides => do
    let parent ← parent.view
    childCall.check overrides.keys
    let execution ← parent.collect
    pure (.ofExecution (execution.derive overrides))

def execution (source : ExecutionSource) : Except Failure Execution := do
  (← source.view).collect

/-- An execution and its descendants, each made from the one before it. -/
def lineage (source : ExecutionSource) : List Overrides → Except Failure (List Execution)
  | [] => return [← source.execution]
  | overrides :: rest => do
    let first ← source.execution
    return first :: (← (source.child overrides).lineage rest)

end ExecutionSource

end LogContext
