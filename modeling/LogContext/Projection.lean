import LogContext.Config
import LogContext.SectionStack

namespace LogContext

/-- Keeps a diagnostic store at the current values of a section stack. A projection reads
executions, calls the store, asks for the current application and reports changes of its sections;
each of these may fail. The stack itself is part of the state it works on. -/
structure Projection (ε σ : Type) where
  config : Config
  lookUp : String → Work ε σ (Option String)
  put : String → String → Work ε σ Unit
  remove : String → Work ε σ Unit
  application : Work ε σ (Option String)
  report : String → Option Nat → Work ε σ Unit

namespace Projection

variable {ε σ : Type}

def clearedMessage : String := "Logging context cleared from MDC"
def pushedMessage : String := "Logging context section pushed"
def poppedMessage : String := "Logging context section popped"
def fetchedMessage : String := "Logging context fetched from MDC"

/-- Writes the value that a property has; nothing is written as an absent key. -/
def write (p : Projection ε σ) (name : String) : Option String → Work ε σ Unit
  | none => p.remove name
  | some value => p.put name value

/-- The store follows every frame that is pushed or removed. -/
def storeHook (p : Projection ε σ) : SectionStack.Hook ε σ := fun name value =>
  (p.write name value).beside

def removeAll (p : Projection ε σ) : List String → Work ε σ Unit
  | [] => pure ()
  | name :: rest => do
    p.remove name
    removeAll p rest

/-- Takes the active keys out of the store. -/
def clear (p : Projection ε σ) : Work ε σ Unit := do
  p.removeAll p.config.propertyNames
  if p.config.isEnabled then p.report clearedMessage none

/-- An application that is not known is not offered at all. -/
def applicationOffers (p : Projection ε σ) : Work ε σ (List Offer) :=
  match p.config.activeKey? .applicationName with
  | none => pure []
  | some key => do
    match ← p.application with
    | none => pure []
    | some name => pure [(some key, some name)]

/-- The business key of an execution is only read when it is published. -/
def businessOffers (p : Projection ε σ) (view : ExecutionView ε) : Work ε σ (List Offer) :=
  match p.config.activeKey? .businessKey with
  | none => pure []
  | some key => do
    let business ← Work.ofExcept (view .businessKey)
    pure [(some key, business)]

/-- What a section is to hold, in the order in which it is read and pushed. -/
def offers (p : Projection ε σ) (view : ExecutionView ε) : Work ε σ (List Offer) := do
  let activity ← Work.ofExcept (view .activityId)
  let definition ← Work.ofExcept (view .processDefinitionId)
  let instanceId ← Work.ofExcept (view .processInstanceId)
  let tenant ← Work.ofExcept (view .tenantId)
  let application ← p.applicationOffers
  let business ← p.businessOffers view
  let key := p.config.activeKey?
  pure ([(key .activityId, activity), (key .processDefinitionId, definition),
    (key .processInstanceId, instanceId), (key .tenantId, tenant)] ++ application ++ business)

def reportSections (p : Projection ε σ) (message : String) : Work ε (SectionStack × σ) Unit := do
  let st := (← get).1
  (p.report message (some st.sectionCount)).beside

/-- Starts a section with the values of an execution that differ from the current ones. Before the
first value is tracked, the active keys are taken out of the store. -/
def push (p : Projection ε σ) (view : ExecutionView ε) : Work ε (SectionStack × σ) Bool := do
  if p.config.isEnabled then
    let st := (← get).1
    if !st.hasTracked then p.clear.beside
    let offers ← (p.offers view).beside
    let changed ← SectionStack.push p.storeHook offers
    if changed then p.reportSections pushedMessage
    pure changed
  else pure false

/-- Goes back to the values before the latest section. -/
def pop (p : Projection ε σ) : Work ε (SectionStack × σ) Unit := do
  if p.config.isEnabled then
    let st := (← get).1
    SectionStack.pop p.storeHook
    if 0 < st.sectionCount then p.reportSections poppedMessage

/-- Pushes pairs as they are, also when every role is turned off. -/
def pushOffers (p : Projection ε σ) (offers : List Offer) : Work ε (SectionStack × σ) Bool :=
  SectionStack.push p.storeHook offers

/-- Looks up keys in order and offers what the store holds. -/
def storedOffers (p : Projection ε σ) : List String → Work ε σ (List Offer)
  | [] => pure []
  | name :: rest => do
    let value ← p.lookUp name
    let offers ← storedOffers p rest
    pure ((some name, value) :: offers)

/-- Keeps what the store holds now in a section of its own, without writing to the store. -/
def fetch (p : Projection ε σ) : Work ε (SectionStack × σ) Bool := do
  if p.config.isEnabled then
    let offers ← (p.storedOffers p.config.propertyNames).beside
    let changed ← SectionStack.push SectionStack.silent offers
    if changed then p.reportSections fetchedMessage
    pure changed
  else pure false

def writeLatest (p : Projection ε σ) : List String → Work ε (SectionStack × σ) Unit
  | [] => pure ()
  | name :: rest => do
    let st := (← get).1
    p.storeHook name (st.latest name)
    writeLatest p rest

/-- Writes the current values to the store; a stack that never tracked a value leaves it alone. -/
def sync (p : Projection ε σ) : Work ε (SectionStack × σ) Unit := do
  let st := (← get).1
  if st.hasTracked then p.writeLatest p.config.propertyNames

end Projection

/-- Enters, and if that changed something leaves again after the body, however the body ended. -/
def Work.bracket {ε σ α : Type} (enter : Work ε σ Bool) (leave : Work ε σ Unit)
    (body : Bool → Work ε σ α) : Work ε σ α := do
  let changed ← enter
  if changed then (body changed).ensuring leave else body changed

/-- Runs a body inside the section of an execution. -/
def Projection.inSection {ε σ α : Type} (p : Projection ε σ) (view : ExecutionView ε)
    (body : Bool → Work ε (SectionStack × σ) α) : Work ε (SectionStack × σ) α :=
  Work.bracket (p.push view) p.pop body

end LogContext
