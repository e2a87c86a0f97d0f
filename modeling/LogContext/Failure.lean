import LogContext.CallShape
import LogContext.Execution

namespace LogContext

/-- The calls a projection makes on a diagnostic store. -/
inductive StoreCall where
  | get
  | put
  | remove
  deriving DecidableEq, Repr

def StoreCall.name : StoreCall → String
  | .get => "get"
  | .put => "put"
  | .remove => "remove"

/-- Why a piece of work ended early. -/
inductive Failure where
  /-- A hook, an execution, a resolver, an observer or a caller gave up. -/
  | raised (message : String)
  /-- A program was told to stop. -/
  | stopped (message : String)
  | refusedCall (call : StoreCall) (key : String)
  | selection (item : Option String)
  /-- What was asked cannot answer this call. -/
  | missingCall (owner call : String)
  /-- A call was given an argument by place and once more by name. -/
  | repeatedArgument (call argument : String)
  deriving DecidableEq, Repr

namespace Failure

def message : Failure → String
  | .raised message => message
  | .stopped message => message
  | .refusedCall call key => call.name ++ " " ++ key ++ " failed"
  | .selection item => "select " ++ item.getD "None"
  | .missingCall owner call => "'" ++ owner ++ "' object has no attribute '" ++ call ++ "'"
  | .repeatedArgument call argument =>
    call ++ "() got multiple values for argument '" ++ argument ++ "'"

/-- How much of a program a failure ends. -/
inductive Reach where
  /-- The step that fails; the next one follows. -/
  | step
  /-- All up to a step that catches it. -/
  | catcher
  /-- The whole program, which then has no other answer. -/
  | program
  deriving DecidableEq, Repr

def reach : Failure → Reach
  | .stopped _ => .catcher
  | .repeatedArgument .. => .program
  | _ => .step

end Failure

/-- Arguments by name must not repeat those by place. -/
def CallShape.check (shape : CallShape) (names : List String) : Except Failure Unit :=
  match shape.repeated? names with
  | none => .ok ()
  | some name => .error (.repeatedArgument shape.name name)

end LogContext
