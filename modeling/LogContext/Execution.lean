import LogContext.OrderedMap

namespace LogContext

/-- What an execution can be asked for. -/
inductive ExecutionField where
  | activityId
  | processDefinitionId
  | processInstanceId
  | tenantId
  | businessKey
  deriving DecidableEq, Repr

namespace ExecutionField

def all : List ExecutionField :=
  [.activityId, .processDefinitionId, .processInstanceId, .tenantId, .businessKey]

def name : ExecutionField → String
  | .activityId => "activity_id"
  | .processDefinitionId => "process_definition_id"
  | .processInstanceId => "process_instance_id"
  | .tenantId => "tenant_id"
  | .businessKey => "business_key"

theorem mem_all (f : ExecutionField) : f ∈ all := by cases f <;> decide

end ExecutionField

/-- The contextual fields of one execution, fixed when it is made. -/
structure Execution where
  activityId : Option String := none
  processDefinitionId : Option String := none
  processInstanceId : Option String := none
  tenantId : Option String := none
  businessKey : Option String := none
  deriving DecidableEq, Repr

/-- Values for fields by name; a name that no field has counts for nothing. -/
abbrev Overrides := OrderedMap String (Option String)

namespace Execution

def get (e : Execution) : ExecutionField → Option String
  | .activityId => e.activityId
  | .processDefinitionId => e.processDefinitionId
  | .processInstanceId => e.processInstanceId
  | .tenantId => e.tenantId
  | .businessKey => e.businessKey

def ofFields (value : ExecutionField → Option String) : Execution where
  activityId := value .activityId
  processDefinitionId := value .processDefinitionId
  processInstanceId := value .processInstanceId
  tenantId := value .tenantId
  businessKey := value .businessKey

theorem get_ofFields (value : ExecutionField → Option String) (f : ExecutionField) :
    (ofFields value).get f = value f := by cases f <;> rfl

/-- A field that is overridden, even with nothing, takes the override; the others are inherited. -/
def derive (e : Execution) (overrides : Overrides) : Execution :=
  ofFields fun f => (overrides.find? f.name).getD (e.get f)

theorem get_derive (e : Execution) (overrides : Overrides) (f : ExecutionField) :
    (e.derive overrides).get f = (overrides.find? f.name).getD (e.get f) :=
  get_ofFields _ f

end Execution

/-- An execution as a caller hands it over: reading a field may fail. -/
abbrev ExecutionView (ε : Type) := ExecutionField → Except ε (Option String)

namespace ExecutionView

variable {ε : Type}

def ofExecution (e : Execution) : ExecutionView ε := fun f => .ok (e.get f)

/-- All fields, read in order. -/
def collect (view : ExecutionView ε) : Except ε Execution := do
  let activityId ← view .activityId
  let processDefinitionId ← view .processDefinitionId
  let processInstanceId ← view .processInstanceId
  let tenantId ← view .tenantId
  let businessKey ← view .businessKey
  pure { activityId, processDefinitionId, processInstanceId, tenantId, businessKey }

end ExecutionView

end LogContext
