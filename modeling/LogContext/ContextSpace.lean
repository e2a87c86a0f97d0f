import LogContext.OrderedMap

namespace LogContext

abbrev Table := OrderedMap String String

/-- Writes entries, and removes those for which no value is given. -/
def Table.amend (table : Table) (changes : List (String × Option String)) : Table :=
  changes.foldl (fun table change => match change.2 with
    | some value => table.insert change.1 value
    | none => table.erase change.1) table

/-- What a thread or a task sees: for each store the table that holds its entries, and the current
application. A table is meant by its reference, so copies of a context share their tables. -/
structure Context where
  tables : OrderedMap String Nat
  application : Option String

def Context.empty : Context := ⟨.empty, none⟩

/-- All tables ever made, and the context that runs now. Tables can be changed in place. -/
structure ContextSpace where
  heap : Array Table
  current : Context

namespace ContextSpace

def start : ContextSpace := ⟨#[], .empty⟩

instance : Inhabited ContextSpace := ⟨start⟩

def tableAt (s : ContextSpace) (ref : Nat) : Table := s.heap[ref]?.getD .empty

def allocate (s : ContextSpace) (table : Table) : Nat × ContextSpace :=
  (s.heap.size, { s with heap := s.heap.push table })

/-- Changes a table in place, for everyone who refers to it. -/
def change (s : ContextSpace) (ref : Nat) (f : Table → Table) : ContextSpace :=
  { s with heap := s.heap.modify ref f }

def bindTable (s : ContextSpace) (store : String) (ref : Nat) : ContextSpace :=
  { s with current := { s.current with tables := s.current.tables.insert store ref } }

/-- The table of a store in the current context; a store without one gets an empty one. -/
def tableRef (s : ContextSpace) (store : String) : Nat × ContextSpace :=
  match s.current.tables.find? store with
  | some ref => (ref, s)
  | none =>
    let (ref, s) := s.allocate .empty
    (ref, s.bindTable store ref)

/-- A new table with the entries of a store. -/
def copyTable (s : ContextSpace) (store : String) : Nat × ContextSpace :=
  let (ref, s) := s.tableRef store
  s.allocate (s.tableAt ref)

/-- The entries of a store as the current context sees them. -/
def entries (s : ContextSpace) (store : String) : Table :=
  match s.current.tables.find? store with
  | some ref => s.tableAt ref
  | none => .empty

def get (s : ContextSpace) (store key : String) : Option String × ContextSpace :=
  let (ref, s) := s.tableRef store
  ((s.tableAt ref).find? key, s)

/-- The entry is written to a copy, and the copy replaces the table. -/
def put (s : ContextSpace) (store key value : String) : ContextSpace :=
  let (ref, s) := s.copyTable store
  (s.change ref (·.insert key value)).bindTable store ref

/-- A missing key is ignored. -/
def remove (s : ContextSpace) (store key : String) : ContextSpace :=
  let (ref, s) := s.tableRef store
  if (s.tableAt ref).find? key = none then s
  else
    let (ref, s) := s.copyTable store
    (s.change ref (·.erase key)).bindTable store ref

def clear (s : ContextSpace) (store : String) : ContextSpace :=
  let (ref, s) := s.allocate .empty
  s.bindTable store ref

/-- A copy of the entries for the caller, who may change it. -/
def snapshot (s : ContextSpace) (store : String) (changes : List (String × String)) :
    Nat × ContextSpace :=
  let (ref, s) := s.copyTable store
  (ref, s.change ref (·.insertAll changes))

def application (s : ContextSpace) : Option String := s.current.application

def setApplication (s : ContextSpace) (name : Option String) : ContextSpace :=
  { s with current := { s.current with application := name } }

/-- Another context takes over; tables are common to all. -/
def switch (s : ContextSpace) (context : Context) : ContextSpace := { s with current := context }

end ContextSpace

end LogContext
