import LogContext.Failure
import LogContext.SectionStack

namespace LogContext

inductive HookKind where
  | push
  | remove
  deriving DecidableEq, Repr

/-- One call of a hook, with the stack as it was then. -/
structure HookCall where
  kind : HookKind
  property : String
  value : Option String
  stack : SectionStack

inductive StackCall where
  | push (offers : List Offer)
  | pop
  deriving DecidableEq, Repr

/-- What happened to a stack and its hooks, in order. Calls and hooks end well or with a failure. -/
inductive JournalEntry where
  | began (call : StackCall)
  | ended (call : StackCall) (well : Bool)
  | hooked (call : HookCall)
  | unhooked (kind : HookKind) (well : Bool)

def JournalEntry.hookCall? : JournalEntry → Option HookCall
  | .hooked call => some call
  | _ => none

inductive HookAction where
  | fail (message : String)
  | call (call : StackCall)
  deriving DecidableEq, Repr

/-- What a hook does, once, when it is called for a property. Without a property it never is. -/
structure HookScript where
  property : Option String
  actions : List HookAction
  deriving DecidableEq, Repr

/-- The scripts that are still to be used, and all that happened so far. -/
structure HookBench where
  onPush : List HookScript
  onRemove : List HookScript
  journal : List JournalEntry

namespace HookBench

def ofScripts (onPush onRemove : List HookScript) : HookBench := ⟨onPush, onRemove, []⟩

def scripts (bench : HookBench) : HookKind → List HookScript
  | .push => bench.onPush
  | .remove => bench.onRemove

def setScripts (bench : HookBench) (scripts : List HookScript) : HookKind → HookBench
  | .push => { bench with onPush := scripts }
  | .remove => { bench with onRemove := scripts }

def note (bench : HookBench) (entry : JournalEntry) : HookBench :=
  { bench with journal := bench.journal ++ [entry] }

def hookCalls (bench : HookBench) : List HookCall :=
  bench.journal.filterMap JournalEntry.hookCall?

/-- No hook can call the stack more deeply than there are scripts left. -/
def remaining (bench : HookBench) : Nat := bench.onPush.length + bench.onRemove.length

/-- The first script for the property is used up. -/
def take (bench : HookBench) (kind : HookKind) (property : String) :
    List HookAction × HookBench :=
  match (bench.scripts kind).find? (·.property = some property) with
  | none => ([], bench)
  | some script =>
    (script.actions,
      bench.setScripts ((bench.scripts kind).eraseP (·.property = some property)) kind)

end HookBench

/-- The result of a push is whether it opened a section. -/
def StackCall.run {ε σ : Type} (hooks : HookKind → SectionStack.Hook ε σ) :
    StackCall → Work ε (SectionStack × σ) (Option Bool)
  | .push offers => some <$> SectionStack.push (hooks .push) offers
  | .pop => (fun _ => none) <$> SectionStack.pop (hooks .remove)

abbrev BenchWork (α : Type) := Work Failure (SectionStack × HookBench) α

namespace BenchWork

def note (entry : JournalEntry) : BenchWork Unit :=
  modify fun s => (s.1, s.2.note entry)

/-- Notes how a piece of work ends. -/
def noteEnd {α : Type} (entry : Bool → JournalEntry) (work : BenchWork α) : BenchWork α := do
  let outcome ← work.attempt
  note (entry outcome.isOk)
  Work.ofExcept outcome

def take (kind : HookKind) (property : String) : BenchWork (List HookAction) :=
  modifyGet fun s =>
    let (actions, bench) := s.2.take kind property
    (actions, (s.1, bench))

end BenchWork

def StackCall.runNoted (hooks : HookKind → SectionStack.Hook Failure HookBench)
    (call : StackCall) : BenchWork (Option Bool) := do
  BenchWork.note (.began call)
  BenchWork.noteEnd (.ended call) (call.run hooks)

def HookAction.run (hooks : HookKind → SectionStack.Hook Failure HookBench) :
    HookAction → BenchWork Unit
  | .fail message => throw (.raised message)
  | .call c => (fun _ => ()) <$> c.runNoted hooks

def HookAction.runAll (hooks : HookKind → SectionStack.Hook Failure HookBench) :
    List HookAction → BenchWork Unit
  | [] => pure ()
  | action :: rest => do
    action.run hooks
    runAll hooks rest

/-- A hook that is heard notes its call before it does what its script says. -/
def heardHook (react : List HookAction → BenchWork Unit) (kind : HookKind) :
    SectionStack.Hook Failure HookBench := fun property value => do
  let st := (← get).1
  BenchWork.note (.hooked ⟨kind, property, value, st⟩)
  let actions ← BenchWork.take kind property
  BenchWork.noteEnd (.unhooked kind) (react actions)

/-- The hooks of a bench: those of a kind that is not heard do nothing. `depth` bounds how deeply
hooks may call the stack within each other. -/
def scriptedHook (heard : HookKind → Bool) : Nat → HookKind → SectionStack.Hook Failure HookBench
  | 0, kind => if heard kind then heardHook (fun _ => pure ()) kind else SectionStack.silent
  | depth + 1, kind =>
    if heard kind then heardHook (HookAction.runAll (scriptedHook heard depth)) kind
    else SectionStack.silent

/-- A call from outside. Each script is used once, so the scripts left bound the nesting. -/
def StackCall.runScripted (heard : HookKind → Bool) (call : StackCall) :
    BenchWork (Option Bool) := do
  let remaining := (← get).2.remaining
  call.runNoted (scriptedHook heard remaining)

end LogContext
