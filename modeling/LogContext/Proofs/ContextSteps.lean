import LogContext.Proofs.ContextLedger
import LogContext.Proofs.ContextTables

namespace LogContext

open ContextSpace

namespace ContextRun

variable {s s' : ContextRun} {c : Context} {v : ContextView}

/-- What a context sees is what a view says, and nobody can change it in place. -/
structure Depicts (s : ContextRun) (c : Context) (v : ContextView) : Prop where
  sound : c.Sound s.space (· ∈ s.copies)
  tables : c.tableIn s.space = v.tables
  application : c.application = v.application

/-- Contexts that do not run keep their tables. -/
structure Advances (s s' : ContextRun) : Prop where
  kept : Extends (· ∈ s.copies) s.space s'.space
  newer : ∀ ref ∈ s'.copies, ref ∈ s.copies ∨ s.space.heap.size ≤ ref

theorem Advances.of_space (h : Extends (· ∈ s.copies) s.space s'.space)
    (copies : s'.copies = s.copies) : Advances s s' :=
  ⟨h, fun _ hm => Or.inl (copies ▸ hm)⟩

theorem Advances.of_heap (heap : s'.space.heap = s.space.heap) (copies : s'.copies = s.copies) :
    Advances s s' :=
  .of_space ((Extends.refl _ s.space).of_heap heap) copies

theorem heap_leave (s : ContextRun) (scope : String) :
    (s.leave scope).space.heap = s.space.heap := by
  unfold leave
  cases s.scopes.find? scope <;> rfl

theorem copies_leave (s : ContextRun) (scope : String) : (s.leave scope).copies = s.copies := by
  unfold leave
  cases s.scopes.find? scope <;> rfl

theorem Depicts.advance (h : Depicts s c v) (advances : Advances s s') : Depicts s' c v := by
  refine ⟨advances.kept.sound advances.newer h.sound, ?_, h.application⟩
  rw [← h.tables]
  exact funext fun store => advances.kept.tableIn_eq h.sound store

theorem entries_eq (s : ContextSpace) : s.entries = s.current.tableIn s :=
  funext fun store => entries_eq_tableIn s store

theorem Depicts.entries (h : Depicts s s.space.current v) : s.space.entries = v.tables :=
  (entries_eq s.space).trans h.tables

theorem Depicts.rebind (h : Depicts s s.space.current v)
    (bounded : ∀ ref ∈ s.copies, ref < s.space.heap.size) {space : ContextSpace} {store : String}
    {table : Table} (rebinds : Rebinds (· ∈ s.copies) s.space space store table) :
    Depicts { s with space } space.current (v.write store table) := by
  refine ⟨rebinds.sound bounded h.sound, ?_, rebinds.application.trans h.application⟩
  have hentries : space.entries = Function.update v.tables store table := by
    rw [rebinds.entries h.sound, h.entries]
  rw [← entries_eq, hentries]
  rfl

theorem write_tables (v : ContextView) (store : String) : v.write store (v.tables store) = v := by
  rw [ContextView.write, Function.update_eq_self]

theorem Depicts.read (h : Depicts s s.space.current v)
    (bounded : ∀ ref ∈ s.copies, ref < s.space.heap.size) (store : String) :
    Depicts { s with space := (s.space.tableRef store).2 } (s.space.tableRef store).2.current v := by
  rcases rebinds_tableRef (· ∈ s.copies) s.space store with heq | ⟨hempty, hrebinds⟩
  · rw [heq]
    exact h
  · have hread := h.rebind bounded hrebinds
    rw [h.entries] at hempty
    rw [← hempty, write_tables] at hread
    exact hread

theorem step_advances (bounded : ∀ ref ∈ s.copies, ref < s.space.heap.size) (step : ContextStep) :
    Advances s (s.step step).2 ∧
      ∀ ref ∈ (s.step step).2.copies, ref < (s.step step).2.space.heap.size := by
  have hkeep : ∀ t : ContextRun, Extends (· ∈ s.copies) s.space t.space → t.copies = s.copies →
      Advances s t ∧ ∀ ref ∈ t.copies, ref < t.space.heap.size := by
    intro t hspace hcopies
    refine ⟨.of_space hspace hcopies, fun ref hm => ?_⟩
    rw [hcopies] at hm
    exact Nat.lt_of_lt_of_le (bounded ref hm) hspace.size_le
  cases step with
  | put store key value => exact hkeep _ (rebinds_put _ s.space store key value).kept rfl
  | get store key => exact hkeep _ (extends_tableRef _ s.space store) rfl
  | remove store key =>
    have hremove : Extends (· ∈ s.copies) s.space (s.space.remove store key) := by
      rcases remove_cases (· ∈ s.copies) s.space store key with ⟨heq, -⟩ | hrebinds
      · rw [heq]
        exact extends_tableRef _ s.space store
      · exact hrebinds.kept
    exact hkeep _ hremove rfl
  | clear store => exact hkeep _ (rebinds_clear _ s.space store).kept rfl
  | snapshot store changes =>
    obtain ⟨hkept, hle, hlt⟩ :=
      extends_copyTable (· ∈ s.copies) s.space store (·.insertAll changes)
    have hsize : ((s.space.copyTable store).2.change (s.space.copyTable store).1
        (·.insertAll changes)).heap.size = (s.space.copyTable store).2.heap.size := by
      simp [change]
    refine ⟨⟨hkept, fun ref hm => ?_⟩, fun ref hm => ?_⟩
    · rcases Array.mem_push.mp hm with hold | rfl
      · exact Or.inl hold
      · exact Or.inr hle
    · rcases Array.mem_push.mp hm with hold | rfl
      · exact Nat.lt_of_lt_of_le (bounded ref hold) hkept.size_le
      · exact Nat.lt_of_lt_of_le hlt (Nat.le_of_eq hsize.symm)
  | alter copy changes =>
    have halter : Extends (· ∈ s.copies) s.space
        (s.copies[copy]?.elim s.space fun ref => s.space.change ref (·.amend changes)) := by
      cases hcopy : s.copies[copy]? with
      | none => exact .refl _ s.space
      | some ref =>
        have hhanded : ref ∈ s.copies := Array.mem_of_getElem? hcopy
        exact (Extends.refl _ s.space).change (Or.inl hhanded) (·.amend changes)
    exact hkeep _ halter rfl
  | enter scope name => exact hkeep _ ((Extends.refl _ s.space).of_heap rfl) rfl
  | leave scope =>
    exact hkeep _ ((Extends.refl _ s.space).of_heap (s.heap_leave scope)) (s.copies_leave scope)
  | save name => exact hkeep _ (.refl _ s.space) rfl

/-- Whoever is alone with the entries gets the same answer, and sees the same afterwards. -/
theorem step_depicts (h : Depicts s s.space.current v)
    (bounded : ∀ ref ∈ s.copies, ref < s.space.heap.size) {step : ContextStep}
    (scopes : ∀ scope, step = .leave scope → v.scopes scope = s.scopes.find? scope) :
    Depicts (s.step step).2 (s.step step).2.space.current (v.act step) ∧
      (s.step step).1 = v.answer step := by
  cases step with
  | put store key value =>
    have hput := h.rebind bounded (rebinds_put _ s.space store key value)
    rw [h.entries] at hput
    exact ⟨hput, rfl⟩
  | get store key =>
    refine ⟨h.read bounded store, ?_⟩
    have hanswer : (s.space.get store key).1 = (v.tables store).find? key := by
      rw [get_fst, h.entries]
    exact congrArg ContextResult.text hanswer
  | remove store key =>
    refine ⟨?_, rfl⟩
    rcases remove_cases (· ∈ s.copies) s.space store key with ⟨heq, hsame⟩ | hrebinds
    · have hread := h.read bounded store
      rw [h.entries] at hsame
      have hview : v.act (.remove store key) = v := by
        rw [ContextView.act, hsame, write_tables]
      rw [hview]
      simp only [step, heq]
      exact hread
    · have hremove := h.rebind bounded hrebinds
      rw [h.entries] at hremove
      exact hremove
  | clear store => exact ⟨h.rebind bounded (rebinds_clear _ s.space store), rfl⟩
  | snapshot store changes =>
    have hread := h.read bounded store
    have hcopy : Advances { s with space := (s.space.tableRef store).2 }
        (s.step (.snapshot store changes)).2 := by
      have hallocate := extends_allocate (· ∈ s.copies) (s.space.tableRef store).2
        ((s.space.tableRef store).2.tableAt (s.space.tableRef store).1)
      refine ⟨hallocate.change (Or.inr (Nat.le_refl _)) (·.insertAll changes), fun ref hm => ?_⟩
      rcases Array.mem_push.mp hm with hold | rfl
      · exact Or.inl hold
      · exact Or.inr (Nat.le_refl _)
    refine ⟨hread.advance hcopy, ?_⟩
    have htable : ((s.space.snapshot store changes).2.tableAt (s.space.snapshot store changes).1) =
        (v.tables store).insertAll changes := by
      rw [← h.entries]
      exact tableAt_change_copyTable s.space store (·.insertAll changes)
    exact congrArg (fun table : Table => ContextResult.pairs table.pairs) htable
  | alter copy changes =>
    obtain ⟨hadvances, -⟩ := step_advances bounded (.alter copy changes)
    refine ⟨?_, rfl⟩
    have hcurrent : (s.step (.alter copy changes)).2.space.current = s.space.current := by
      simp only [step]
      cases s.copies[copy]? <;> rfl
    rw [hcurrent]
    exact h.advance hadvances
  | enter scope name => exact ⟨⟨h.sound, h.tables, rfl⟩, rfl⟩
  | leave scope =>
    refine ⟨?_, rfl⟩
    have hscope := scopes scope rfl
    simp only [step, leave, ContextView.act, ContextView.leave, hscope]
    cases s.scopes.find? scope with
    | none => exact h
    | some before => exact ⟨h.sound, h.tables, rfl⟩
  | save name => exact ⟨⟨h.sound, h.tables, h.application⟩, rfl⟩

end ContextRun

end LogContext
