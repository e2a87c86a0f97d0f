import LogContext.ContextSpace

namespace LogContext

namespace ContextSpace

theorem entries_bindTable (s : ContextSpace) (store : String) (ref : Nat) :
    (s.bindTable store ref).entries store = s.tableAt ref := by
  have hfind : (s.bindTable store ref).current.tables.find? store = some ref := by
    simp only [bindTable, OrderedMap.find?_insert, ↓reduceIte]
  simp only [entries, hfind]
  rfl

theorem tableAt_allocate (s : ContextSpace) (table : Table) :
    (s.allocate table).2.tableAt (s.allocate table).1 = table := by
  simp only [allocate, tableAt, Array.getElem?_push_size, Option.getD_some]

theorem tableAt_tableRef (s : ContextSpace) (store : String) :
    (s.tableRef store).2.tableAt (s.tableRef store).1 = s.entries store := by
  unfold tableRef entries
  cases s.current.tables.find? store with
  | none => exact tableAt_allocate s .empty
  | some ref => rfl

theorem entries_tableRef (s : ContextSpace) (store : String) :
    (s.tableRef store).2.entries store = s.entries store := by
  have htable := tableAt_tableRef s store
  cases h : s.current.tables.find? store with
  | none =>
    simp only [tableRef, h] at htable ⊢
    rw [entries_bindTable]
    exact htable
  | some ref => simp only [tableRef, h]

theorem application_tableRef (s : ContextSpace) (store : String) :
    (s.tableRef store).2.application = s.application := by
  unfold tableRef
  cases s.current.tables.find? store <;> rfl

/-- A copy is a new table, so changing it in place changes what is bound to it, and nothing else. -/
theorem tableAt_change_copyTable (s : ContextSpace) (store : String) (f : Table → Table) :
    ((s.copyTable store).2.change (s.copyTable store).1 f).tableAt (s.copyTable store).1 =
      f (s.entries store) := by
  simp only [copyTable, allocate, change, tableAt, Array.getElem?_modify, ↓reduceIte,
    Array.getElem?_push_size, Option.map_some, Option.getD_some]
  exact congrArg f (tableAt_tableRef s store)

theorem find?_tableRef (s : ContextSpace) (store : String) :
    (s.tableRef store).2.current.tables.find? store = some (s.tableRef store).1 := by
  unfold tableRef
  cases h : s.current.tables.find? store with
  | none => simp only [bindTable, OrderedMap.find?_insert, ↓reduceIte]
  | some ref => exact h

theorem tableAt_snapshot (s : ContextSpace) (store : String) (changes : List (String × String)) :
    (s.snapshot store changes).2.tableAt (s.snapshot store changes).1 =
      (s.entries store).insertAll changes :=
  tableAt_change_copyTable s store (·.insertAll changes)

/-- To take a copy changes nothing that can be seen. -/
theorem entries_snapshot (s : ContextSpace) (store : String) :
    (s.snapshot store []).2.entries store = s.entries store := by
  have hfind : (s.snapshot store []).2.current.tables.find? store = some (s.tableRef store).1 :=
    find?_tableRef s store
  rw [entries, hfind, ← tableAt_tableRef s store]
  simp only [snapshot, copyTable, allocate, change, tableAt, Array.getElem?_modify,
    Array.getElem?_push]
  by_cases heq : (s.tableRef store).2.heap.size = (s.tableRef store).1
  · simp only [heq, ↓reduceIte, Option.map_some, Option.getD_some]
    rfl
  · simp only [heq, Ne.symm heq, ↓reduceIte]

theorem application_snapshot (s : ContextSpace) (store : String)
    (changes : List (String × String)) :
    (s.snapshot store changes).2.application = s.application :=
  application_tableRef s store

theorem entries_put (s : ContextSpace) (store key value : String) :
    (s.put store key value).entries store = (s.entries store).insert key value := by
  rw [put, entries_bindTable, tableAt_change_copyTable]

theorem application_put (s : ContextSpace) (store key value : String) :
    (s.put store key value).application = s.application :=
  application_tableRef s store

theorem get_fst (s : ContextSpace) (store key : String) :
    (s.get store key).1 = (s.entries store).find? key :=
  congrArg (fun table => OrderedMap.find? table key) (tableAt_tableRef s store)

theorem entries_get (s : ContextSpace) (store key : String) :
    (s.get store key).2.entries store = s.entries store :=
  entries_tableRef s store

theorem application_get (s : ContextSpace) (store key : String) :
    (s.get store key).2.application = s.application :=
  application_tableRef s store

/-- A table without the key is kept as it is; any other is replaced by a copy. -/
theorem entries_remove (s : ContextSpace) (store key : String) :
    (s.remove store key).entries store = (s.entries store).erase key := by
  unfold remove
  simp only [tableAt_tableRef]
  split
  next h => rw [entries_tableRef, OrderedMap.erase_of_find?_eq_none h]
  next => rw [entries_bindTable, tableAt_change_copyTable, entries_tableRef]

theorem find?_entries_remove (s : ContextSpace) (store key other : String) :
    ((s.remove store key).entries store).find? other =
      if other = key then none else (s.entries store).find? other := by
  rw [entries_remove, OrderedMap.find?_erase]

theorem application_remove (s : ContextSpace) (store key : String) :
    (s.remove store key).application = s.application := by
  unfold remove
  simp only
  split
  next => exact application_tableRef s store
  next => exact (application_tableRef _ store).trans (application_tableRef s store)

end ContextSpace

end LogContext
