import LogContext.ActivityStack
import LogContext.HookScript

namespace LogContext

inductive StackStep where
  | call (call : StackCall)
  | pushExecution (source : ExecutionSource)
  | latestActivity
  | latest (name : Option String)
  | depth (name : Option String)

inductive StackResult where
  | nothing
  | flag (b : Bool)
  | text (value : Option String)
  | number (n : Nat)
  | failed (failure : Failure)

/-- The result of a step, the stack after it, and the hook calls that it made. -/
structure StackEntry where
  result : StackResult
  stack : SectionStack
  hookCalls : List HookCall

namespace StackProgram

/-- Only a push has an answer. -/
def callResult (call : StackCall) (heard : HookKind → Bool) : BenchWork StackResult := do
  match ← call.runScripted heard with
  | some opened => pure (.flag opened)
  | none => pure .nothing

/-- A property without a name has no value and no frames. -/
def perform (kind : StackKind) (heard : HookKind → Bool) : StackStep → BenchWork StackResult
  | .call call => callResult call heard
  | .pushExecution source => do
    let offers ← Work.ofExcept (kind.offers source)
    callResult (.push offers) heard
  | .latestActivity => do
    let st := (← get).1
    .text <$> Work.ofExcept (kind.latestActivity st)
  | .latest name => return .text (name.bind (← get).1.latest)
  | .depth name => return .number (name.elim 0 (← get).1.depth)

/-- A failure is the result of its step, unless it ends the program. -/
def result (kind : StackKind) (heard : HookKind → Bool) (step : StackStep) :
    BenchWork StackResult := do
  match ← (perform kind heard step).attempt with
  | .ok result => pure result
  | .error e => if e.reach = .program then throw e else pure (.failed e)

def forgetJournal (bench : HookBench) : HookBench := { bench with journal := [] }

def run (kind : StackKind) (heard : HookKind → Bool) :
    List StackStep → SectionStack × HookBench → Except Failure (List StackEntry)
  | [], _ => .ok []
  | step :: rest, s =>
    match result kind heard step s with
    | .error e _ => .error e
    | .ok result (stack, bench) => do
      let entry : StackEntry := { result, stack, hookCalls := bench.hookCalls }
      return entry :: (← run kind heard rest (stack, forgetJournal bench))

/-- Runs steps on a stack that starts empty. -/
def outcome (kind : StackKind) (heard : HookKind → Bool) (bench : HookBench)
    (steps : List StackStep) : Except Failure (List StackEntry) :=
  run kind heard steps (.empty, bench)

end StackProgram

end LogContext
