import LogContext.ContextSpace
import LogContext.Failure
import LogContext.Program

namespace LogContext

inductive ContextStep where
  | put (store key value : String)
  | get (store key : String)
  | remove (store key : String)
  | clear (store : String)
  /-- The caller changes the copy it is given. -/
  | snapshot (store : String) (changes : List (String × String))
  /-- Whoever has one of the copies changes it later on. -/
  | alter (copy : Nat) (changes : List (String × Option String))
  /-- Makes an application current until the scope of this identifier is left. -/
  | enter (scope : String) (name : Option String)
  | leave (scope : String)
  /-- Keeps a copy of the current context under a name. -/
  | save (name : String)
  deriving Repr

inductive ContextBlock where
  /-- Another application is current inside; the block may fail at its end. -/
  | application (name : Option String) (failure : Option String)
  /-- Runs in a saved context, which keeps what is done to it. -/
  | inside (saved : String)
  /-- Runs in a copy of the current context. -/
  | copied
  /-- Runs on another thread, whose context is empty. -/
  | fresh
  deriving Repr

inductive ContextResult where
  | nothing
  | text (value : Option String)
  | pairs (pairs : List (String × String))
  | failed (failure : Failure)
  deriving Repr

/-- What was done, its result, and what the context that did it saw then. -/
inductive ContextEntry where
  | opened (head : ContextBlock)
  | acted (step : ContextStep) (result : ContextResult) (seen : ContextSpace)
  | closed (head : ContextBlock) (result : ContextResult) (seen : ContextSpace)

/-- Scopes that are open, each with the application to go back to, all contexts ever saved, and the
copies of entries that were handed out. A name refers to the context that was saved under it last. -/
structure ContextRun where
  space : ContextSpace
  scopes : OrderedMap String (Option String)
  saved : Array Context
  names : OrderedMap String Nat
  copies : Array Nat

namespace ContextRun

def start : ContextRun := ⟨.start, .empty, #[], .empty, #[]⟩

def save (s : ContextRun) (name : String) : ContextRun :=
  { s with saved := s.saved.push s.space.current, names := s.names.insert name s.saved.size }

def savedContext (s : ContextRun) (name : String) : Context :=
  ((s.names.find? name).bind (s.saved[·]?)).getD .empty

/-- What the current context has become is kept in the place of a saved one. -/
def keepIn (s : ContextRun) (place : Option Nat) : ContextRun :=
  { s with saved := place.elim s.saved fun ref => s.saved.setIfInBounds ref s.space.current }

/-- A scope that was never entered is not left. -/
def leave (s : ContextRun) (scope : String) : ContextRun :=
  match s.scopes.find? scope with
  | none => s
  | some before =>
    { s with space := s.space.setApplication before, scopes := s.scopes.erase scope }

def step (s : ContextRun) : ContextStep → ContextResult × ContextRun
  | .put store key value => (.nothing, { s with space := s.space.put store key value })
  | .get store key =>
    let (value, space) := s.space.get store key
    (.text value, { s with space })
  | .remove store key => (.nothing, { s with space := s.space.remove store key })
  | .clear store => (.nothing, { s with space := s.space.clear store })
  | .snapshot store changes =>
    let (ref, space) := s.space.snapshot store changes
    (.pairs (space.tableAt ref).pairs, { s with space, copies := s.copies.push ref })
  | .alter copy changes =>
    (.nothing, { s with
      space := s.copies[copy]?.elim s.space fun ref => s.space.change ref (·.amend changes) })
  | .enter scope name =>
    (.nothing, { s with
      space := s.space.setApplication name
      scopes := s.scopes.insert scope s.space.application })
  | .leave scope => (.nothing, s.leave scope)
  | .save name => (.nothing, s.save name)

/-- The context in which the body of a block starts. -/
def openBlock (s : ContextRun) : ContextBlock → ContextSpace
  | .application name _ => s.space.setApplication name
  | .inside name => s.space.switch (s.savedContext name)
  | .copied => s.space
  | .fresh => s.space.switch .empty

/-- What a block leaves behind of `after`, the state at the end of its body. A saved context keeps
its changes, also if its name was given to another one meanwhile. -/
def closeBlock (before after : ContextRun) : ContextBlock → ContextResult × ContextRun
  | .application _ failure =>
    (failure.elim .nothing fun message => .failed (.raised message),
      { after with space := after.space.setApplication before.space.application })
  | .inside name =>
    let after := after.keepIn (before.names.find? name)
    (.nothing, { after with space := after.space.switch before.space.current })
  | .copied | .fresh =>
    (.nothing, { after with space := after.space.switch before.space.current })

def run : Program ContextStep ContextBlock → ContextRun → List ContextEntry × ContextRun
  | .done, s => ([], s)
  | .act action rest, s =>
    let (result, s) := s.step action
    let (entries, last) := run rest s
    (.acted action result s.space :: entries, last)
  | .block head body rest, s =>
    let (inner, after) := run body { s with space := s.openBlock head }
    let (result, s) := closeBlock s after head
    let (entries, last) := run rest s
    (.opened head :: inner ++ .closed head result s.space :: entries, last)

end ContextRun

end LogContext
