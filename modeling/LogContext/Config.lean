import LogContext.BlankName
import LogContext.Execution

namespace LogContext

/-- The contextual facts a logging context can publish. -/
inductive Role where
  | activityId
  | applicationName
  | businessKey
  | processDefinitionId
  | processInstanceId
  | tenantId
  deriving DecidableEq, Repr

namespace Role

def all : List Role :=
  [.activityId, .applicationName, .businessKey, .processDefinitionId, .processInstanceId, .tenantId]

def name : Role → String
  | .activityId => "activity_id"
  | .applicationName => "application_name"
  | .businessKey => "business_key"
  | .processDefinitionId => "process_definition_id"
  | .processInstanceId => "process_instance_id"
  | .tenantId => "tenant_id"

/-- The same role in the settings of a workflow engine. -/
def settingName : Role → String
  | .activityId => "loggingContextActivityId"
  | .applicationName => "loggingContextApplicationName"
  | .businessKey => "loggingContextBusinessKey"
  | .processDefinitionId => "loggingContextProcessDefinitionId"
  | .processInstanceId => "loggingContextProcessInstanceId"
  | .tenantId => "loggingContextTenantId"

/-- The same role in the names of environment variables. -/
def variableName (role : Role) : String := String.ofList (role.name.toList.map Char.toUpper)

/-- The constant's own spelling in the text of a role. -/
def constantName (role : Role) : String := role.variableName

def ofName? (name : String) : Option Role := all.find? (·.name = name)

def ofSettingName? (name : String) : Option Role := all.find? (·.settingName = name)

/-- A setting addresses a role by either of its names. -/
def ofKey? (key : String) : Option Role := (ofName? key).or (ofSettingName? key)

theorem mem_all (role : Role) : role ∈ all := by cases role <;> decide

end Role

/-- The store key under which each role is published. A missing or blank key turns the role off. -/
structure Config where
  activityId : Option String := some "activityId"
  applicationName : Option String := some "applicationName"
  businessKey : Option String := none
  processDefinitionId : Option String := some "processDefinitionId"
  processInstanceId : Option String := some "processInstanceId"
  tenantId : Option String := some "tenantId"
  deriving DecidableEq, Repr

/-- The value of a setting; only a text can name a key. -/
inductive SettingValue where
  | text (value : String)
  | other
  deriving DecidableEq, Repr

def SettingValue.key? : SettingValue → Option String
  | .text value => some value
  | .other => none

namespace Config

def get (config : Config) : Role → Option String
  | .activityId => config.activityId
  | .applicationName => config.applicationName
  | .businessKey => config.businessKey
  | .processDefinitionId => config.processDefinitionId
  | .processInstanceId => config.processInstanceId
  | .tenantId => config.tenantId

def ofRoles (key : Role → Option String) : Config where
  activityId := key .activityId
  applicationName := key .applicationName
  businessKey := key .businessKey
  processDefinitionId := key .processDefinitionId
  processInstanceId := key .processInstanceId
  tenantId := key .tenantId

theorem get_ofRoles (key : Role → Option String) (role : Role) :
    (ofRoles key).get role = key role := by cases role <;> rfl

theorem ofRoles_get (config : Config) : ofRoles config.get = config := rfl

def standard : Config := {}

def disabled : Config := ofRoles fun _ => none

def set (config : Config) (role : Role) (key : Option String) : Config :=
  ofRoles fun r => if r = role then key else config.get r

theorem get_set (config : Config) (role r : Role) (key : Option String) :
    (config.set role key).get r = if r = role then key else config.get r :=
  get_ofRoles _ r

/-- The standard configuration with some keys replaced. -/
def ofFields (fields : List (Role × Option String)) : Config :=
  fields.foldl (fun config field => config.set field.1 field.2) standard

def applySetting (config : Config) (setting : String × SettingValue) : Config :=
  match Role.ofKey? setting.1 with
  | none => config
  | some role => config.set role setting.2.key?

/-- Settings are read in order, so the last one that addresses a role decides; unknown ones count
for nothing and roles without a setting keep their standard key. -/
def ofSettings (settings : OrderedMap String SettingValue) : Config :=
  settings.pairs.foldl applySetting standard

def defaultVariablePrefix : String := "FLOWCTX_LOGGING_CONTEXT_"

/-- The settings that an environment holds, role by role. -/
def environmentSettings (environment : OrderedMap String String) (variablePrefix : String) :
    List (String × SettingValue) :=
  Role.all.filterMap fun role =>
    (environment.find? (variablePrefix ++ role.variableName)).map fun value =>
      (role.name, .text value)

def ofEnvironment (environment : OrderedMap String String)
    (variablePrefix : String) : Config :=
  ofSettings (.ofPairs (environmentSettings environment variablePrefix))

/-- The key of a role that is turned on. -/
def activeKey? (config : Config) (role : Role) : Option String :=
  (config.get role).filter fun key => !isBlank key

def activeRoles (config : Config) : List Role :=
  Role.all.filter fun role => (config.activeKey? role).isSome

/-- The active keys in the order of their roles; two roles may share one. -/
def propertyNames (config : Config) : List String := Role.all.filterMap config.activeKey?

def isEnabled (config : Config) : Bool := !config.propertyNames.isEmpty

theorem mem_propertyNames {config : Config} {role : Role} {key : String}
    (h : config.activeKey? role = some key) : key ∈ config.propertyNames :=
  List.mem_filterMap.mpr ⟨role, Role.mem_all role, h⟩

theorem not_isBlank_of_mem_propertyNames {config : Config} {key : String}
    (h : key ∈ config.propertyNames) : isBlank key = false := by
  obtain ⟨role, _, hr⟩ := List.mem_filterMap.mp h
  simpa using (Option.filter_eq_some_iff.mp hr).2

end Config

end LogContext
