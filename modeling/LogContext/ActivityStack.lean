import LogContext.ExecutionSource
import LogContext.SectionStack

namespace LogContext

/-- The property under which nested activities are tracked, apart from any logging. -/
def activityProperty : String := "activityId"

/-- What an execution offers to a stack of activities. -/
def activityOffers {ε : Type} (view : ExecutionView ε) : Except ε (List Offer) := do
  let activity ← view .activityId
  pure [(some activityProperty, activity)]

def SectionStack.latestActivity (st : SectionStack) : Option String := st.latest activityProperty

/-- A plain stack only knows properties; one for activities also follows executions. -/
inductive StackKind where
  | plain
  | activities
  deriving DecidableEq, Repr

namespace StackKind

def plainName : String := "PropertyStack"

def offers (kind : StackKind) (source : ExecutionSource) : Except Failure (List Offer) :=
  match kind with
  | .plain => .error (.missingCall plainName "push_execution")
  | .activities => do activityOffers (← source.view)

def latestActivity (kind : StackKind) (st : SectionStack) : Except Failure (Option String) :=
  match kind with
  | .plain => .error (.missingCall plainName "latest_activity_id")
  | .activities => .ok st.latestActivity

end StackKind

end LogContext
