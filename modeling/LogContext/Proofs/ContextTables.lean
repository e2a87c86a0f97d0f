import LogContext.Proofs.ContextEntries
import Mathlib.Logic.Function.Basic

namespace LogContext

/-- The entries of a store that a context sees. -/
def Context.tableIn (c : Context) (s : ContextSpace) (store : String) : Table :=
  (c.tables.find? store).elim .empty s.tableAt

/-- The tables of a context exist, and none of them was handed out. -/
def Context.Sound (c : Context) (s : ContextSpace) (handed : Nat → Prop) : Prop :=
  ∀ store ref, c.tables.find? store = some ref → ref < s.heap.size ∧ ¬ handed ref

namespace ContextSpace

variable {handed : Nat → Prop} {s s' s'' : ContextSpace} {store : String} {table : Table}

theorem entries_eq_tableIn (s : ContextSpace) (store : String) :
    s.entries store = s.current.tableIn s store := by
  unfold entries Context.tableIn
  cases s.current.tables.find? store <;> rfl

/-- Tables that were there are as they were, but for those that were handed out. -/
structure Extends (handed : Nat → Prop) (s s' : ContextSpace) : Prop where
  size_le : s.heap.size ≤ s'.heap.size
  tableAt_eq : ∀ ref < s.heap.size, ¬ handed ref → s'.tableAt ref = s.tableAt ref

theorem Extends.refl (handed : Nat → Prop) (s : ContextSpace) : Extends handed s s :=
  ⟨Nat.le_refl _, fun _ _ _ => rfl⟩

theorem Extends.trans (h : Extends handed s s') (h' : Extends handed s' s'') :
    Extends handed s s'' := by
  refine ⟨Nat.le_trans h.size_le h'.size_le, fun ref href hfree => ?_⟩
  have hold := h.tableAt_eq ref href hfree
  have hnew := h'.tableAt_eq ref (Nat.lt_of_lt_of_le href h.size_le) hfree
  exact hnew.trans hold

theorem extends_allocate (handed : Nat → Prop) (s : ContextSpace) (table : Table) :
    Extends handed s (s.allocate table).2 := by
  refine ⟨by simp [allocate], fun ref href _ => ?_⟩
  have hne : ref ≠ s.heap.size := Nat.ne_of_lt href
  simp only [allocate, tableAt, Array.getElem?_push, if_neg hne]

theorem tableAt_change_of_ne {ref other : Nat} (hne : other ≠ ref) (f : Table → Table) :
    (s.change ref f).tableAt other = s.tableAt other := by
  simp only [change, tableAt, Array.getElem?_modify, if_neg hne.symm]

/-- What is handed out, or newer than what is looked at, may be changed in place. -/
theorem Extends.change (h : Extends handed s s') {ref : Nat}
    (free : handed ref ∨ s.heap.size ≤ ref) (f : Table → Table) :
    Extends handed s (s'.change ref f) := by
  have hsize : (s'.change ref f).heap.size = s'.heap.size := by simp [ContextSpace.change]
  refine ⟨hsize ▸ h.size_le, fun other ho hfree => ?_⟩
  have hne : other ≠ ref := by
    rintro rfl
    rcases free with hhanded | hle
    · exact hfree hhanded
    · omega
  rw [tableAt_change_of_ne hne]
  exact h.tableAt_eq other ho hfree

theorem Extends.of_heap (h : Extends handed s s') (hheap : s''.heap = s'.heap) :
    Extends handed s s'' := by
  have htable : ∀ ref, s''.tableAt ref = s'.tableAt ref := fun ref => by rw [tableAt, hheap, tableAt]
  refine ⟨hheap ▸ h.size_le, fun ref href hfree => ?_⟩
  rw [htable]
  exact h.tableAt_eq ref href hfree

theorem Extends.tableIn_eq (h : Extends handed s s') {c : Context} (sound : c.Sound s handed)
    (store : String) : c.tableIn s' store = c.tableIn s store := by
  unfold Context.tableIn
  cases hfind : c.tables.find? store with
  | none => rfl
  | some ref =>
    obtain ⟨href, hfree⟩ := sound store ref hfind
    exact h.tableAt_eq ref href hfree

/-- A context keeps its tables to itself if only newer tables are handed out. -/
theorem Extends.sound (h : Extends handed s s') {handed' : Nat → Prop}
    (newer : ∀ ref, handed' ref → handed ref ∨ s.heap.size ≤ ref) {c : Context}
    (sound : c.Sound s handed) : c.Sound s' handed' := by
  intro store ref hfind
  obtain ⟨href, hfree⟩ := sound store ref hfind
  refine ⟨Nat.lt_of_lt_of_le href h.size_le, fun hhanded => ?_⟩
  rcases newer ref hhanded with hold | hle
  · exact hfree hold
  · omega

/-- The current context gets a new table for one of its stores. -/
structure Rebinds (handed : Nat → Prop) (s s' : ContextSpace) (store : String) (table : Table) :
    Prop where
  kept : Extends handed s s'
  application : s'.application = s.application
  bound : ∃ ref, s.heap.size ≤ ref ∧ ref < s'.heap.size ∧
    s'.current.tables.find? store = some ref ∧ s'.tableAt ref = table
  others : ∀ other ≠ store, s'.current.tables.find? other = s.current.tables.find? other

theorem Rebinds.sound (h : Rebinds handed s s' store table)
    (bounded : ∀ ref, handed ref → ref < s.heap.size) (sound : s.current.Sound s handed) :
    s'.current.Sound s' handed := by
  intro other ref hfind
  by_cases heq : other = store
  · subst heq
    obtain ⟨new, hle, hlt, hbound, -⟩ := h.bound
    rw [hbound] at hfind
    obtain rfl := Option.some.inj hfind
    refine ⟨hlt, fun hhanded => ?_⟩
    have hold := bounded new hhanded
    omega
  · rw [h.others other heq] at hfind
    obtain ⟨href, hfree⟩ := sound other ref hfind
    exact ⟨Nat.lt_of_lt_of_le href h.kept.size_le, hfree⟩

theorem Rebinds.entries (h : Rebinds handed s s' store table) (sound : s.current.Sound s handed) :
    s'.entries = Function.update s.entries store table := by
  funext other
  by_cases heq : other = store
  · subst heq
    obtain ⟨ref, -, -, hbound, htable⟩ := h.bound
    rw [Function.update_self, entries_eq_tableIn, Context.tableIn, hbound]
    exact htable
  · have hsame : s'.current.tableIn s' other = s.current.tableIn s' other := by
      rw [Context.tableIn, h.others other heq, Context.tableIn]
    rw [Function.update_of_ne heq, entries_eq_tableIn, entries_eq_tableIn, hsame]
    exact h.kept.tableIn_eq sound other

theorem rebinds_bindTable (h : Extends handed s s') (application : s'.application = s.application)
    (others : ∀ other ≠ store, s'.current.tables.find? other = s.current.tables.find? other)
    {ref : Nat} (hle : s.heap.size ≤ ref) (hlt : ref < s'.heap.size) :
    Rebinds handed s (s'.bindTable store ref) store (s'.tableAt ref) where
  kept := h.of_heap rfl
  application := application
  bound := by
    refine ⟨ref, hle, hlt, ?_, rfl⟩
    simp only [bindTable, OrderedMap.find?_insert, ↓reduceIte]
  others := by
    intro other hne
    simp only [bindTable, OrderedMap.find?_insert, if_neg hne]
    exact others other hne

theorem rebinds_clear (handed : Nat → Prop) (s : ContextSpace) (store : String) :
    Rebinds handed s (s.clear store) store .empty := by
  have hlt : s.heap.size < (s.allocate .empty).2.heap.size := by simp [allocate]
  have hrebinds : Rebinds handed s (s.clear store) store
      ((s.allocate .empty).2.tableAt s.heap.size) :=
    rebinds_bindTable (extends_allocate handed s .empty) rfl (fun _ _ => rfl) (Nat.le_refl _) hlt
  rw [← tableAt_allocate s .empty]
  exact hrebinds

theorem tableRef_of_some {ref : Nat} (h : s.current.tables.find? store = some ref) :
    s.tableRef store = (ref, s) := by
  simp only [tableRef, h]

theorem tableRef_of_none (h : s.current.tables.find? store = none) :
    s.tableRef store = (s.heap.size, s.clear store) := by
  simp only [tableRef, h, allocate, clear]

/-- Reading makes an empty table where there was none, and changes nothing that can be seen. -/
theorem rebinds_tableRef (handed : Nat → Prop) (s : ContextSpace) (store : String) :
    (s.tableRef store).2 = s ∨
      s.entries store = .empty ∧ Rebinds handed s (s.tableRef store).2 store .empty := by
  cases hfind : s.current.tables.find? store with
  | some ref => exact Or.inl (by rw [tableRef_of_some hfind])
  | none =>
    refine Or.inr ⟨?_, ?_⟩
    · rw [entries, hfind]
    · rw [tableRef_of_none hfind]
      exact rebinds_clear handed s store

theorem extends_tableRef (handed : Nat → Prop) (s : ContextSpace) (store : String) :
    Extends handed s (s.tableRef store).2 := by
  rcases rebinds_tableRef handed s store with heq | ⟨-, hrebinds⟩
  · rw [heq]
    exact .refl handed s
  · exact hrebinds.kept

theorem find?_tableRef_of_ne {other : String} (hne : other ≠ store) (s : ContextSpace) :
    (s.tableRef store).2.current.tables.find? other = s.current.tables.find? other := by
  rcases rebinds_tableRef (fun _ => False) s store with heq | ⟨-, hrebinds⟩
  · rw [heq]
  · exact hrebinds.others other hne

/-- A copy is a table that there was not before. -/
theorem extends_copyTable (handed : Nat → Prop) (s : ContextSpace) (store : String)
    (f : Table → Table) :
    Extends handed s ((s.copyTable store).2.change (s.copyTable store).1 f) ∧
      s.heap.size ≤ (s.copyTable store).1 ∧
      (s.copyTable store).1 < (s.copyTable store).2.heap.size := by
  have hread := extends_tableRef handed s store
  have hcopy : Extends handed s (s.copyTable store).2 :=
    hread.trans (extends_allocate handed _ _)
  have hlt : (s.copyTable store).1 < (s.copyTable store).2.heap.size := by
    simp [copyTable, allocate]
  exact ⟨hcopy.change (Or.inr hread.size_le) f, hread.size_le, hlt⟩

/-- A changed copy takes the place of a table. -/
theorem rebinds_copyTable (handed : Nat → Prop) (s : ContextSpace) (store : String)
    (f : Table → Table) :
    Rebinds handed s
      (((s.copyTable store).2.change (s.copyTable store).1 f).bindTable store (s.copyTable store).1)
      store (f (s.entries store)) := by
  obtain ⟨hkept, hle, hlt⟩ := extends_copyTable handed s store f
  have hlt' : (s.copyTable store).1 <
      ((s.copyTable store).2.change (s.copyTable store).1 f).heap.size := by
    simp only [change, Array.size_modify]
    exact hlt
  rw [← tableAt_change_copyTable s store f]
  exact rebinds_bindTable hkept (application_tableRef s store)
    (fun _ hne => find?_tableRef_of_ne hne s) hle hlt'

theorem rebinds_put (handed : Nat → Prop) (s : ContextSpace) (store key value : String) :
    Rebinds handed s (s.put store key value) store ((s.entries store).insert key value) :=
  rebinds_copyTable handed s store (·.insert key value)

/-- A key that is missing changes nothing, and erasing it would not, either. -/
theorem remove_cases (handed : Nat → Prop) (s : ContextSpace) (store key : String) :
    s.remove store key = (s.tableRef store).2 ∧ (s.entries store).erase key = s.entries store ∨
      Rebinds handed s (s.remove store key) store ((s.entries store).erase key) := by
  unfold remove
  simp only [tableAt_tableRef]
  split
  next hmissing => exact Or.inl ⟨rfl, OrderedMap.erase_of_find?_eq_none hmissing⟩
  next hpresent =>
    cases hfind : s.current.tables.find? store with
    | none =>
      have hempty : s.entries store = .empty := by rw [entries, hfind]
      rw [hempty] at hpresent
      exact absurd rfl hpresent
    | some ref =>
      refine Or.inr ?_
      rw [tableRef_of_some hfind]
      exact rebinds_copyTable handed s store (·.erase key)

end ContextSpace

end LogContext
