import LogContext.Proofs.ContextSteps
import Mathlib.Data.List.Forall2

namespace LogContext

open ContextSpace

namespace ContextRun

open ContextLedger

variable {s s' : ContextRun} {l : ContextLedger} {numbers : List Nat} {waiting : List Context}
  {deed : ContextDeed}

theorem forall₂_of_mem_right {α β : Type} {R S : α → β → Prop} {xs : List α} {ys : List β}
    (h : List.Forall₂ R xs ys) (himp : ∀ x, ∀ y ∈ ys, R x y → S x y) : List.Forall₂ S xs ys := by
  induction h with
  | nil => exact .nil
  | cons hxy _ ih =>
    exact .cons (himp _ _ List.mem_cons_self hxy)
      (ih fun x y hy => himp x y (List.mem_cons_of_mem _ hy))

/-- Each context that runs, waits or was saved sees what its history says. `numbers` belong to the
saved contexts, in the order in which they were saved; one that runs is not looked at there. -/
structure Tracks (s : ContextRun) (l : ContextLedger) (numbers : List Nat)
    (waiting : List Context) : Prop where
  bounded : ∀ ref ∈ s.copies, ref < s.space.heap.size
  current : Depicts s s.space.current (l.view l.current)
  outer : List.Forall₂ (fun c i => Depicts s c (l.view i)) waiting l.outer
  saved : ∀ (j : Nat) c i, s.saved[j]? = some c → numbers[j]? = some i → i ∉ l.current :: l.outer →
    Depicts s c (l.view i)
  length : numbers.length = s.saved.size
  named : ∀ name j, s.names.find? name = some j → j < s.saved.size
  names : ∀ name, l.names.find? name = (s.names.find? name).bind (numbers[·]?)
  scopes : ∀ scope i, l.owners.find? scope = some i →
    (l.view i).scopes scope = s.scopes.find? scope
  numbered : l.Numbered numbers

theorem Tracks.noteScoped (h : Tracks s l numbers waiting) (advances : Advances s s')
    (bounded : ∀ ref ∈ s'.copies, ref < s'.space.heap.size)
    (current : Depicts s' s'.space.current ((l.view l.current).apply deed))
    (saved : s'.saved = s.saved) (names : s'.names = s.names) {owners : OrderedMap String Nat}
    (scopes : ∀ scope i, owners.find? scope = some i →
      i < l.next ∧ ((l.note deed).view i).scopes scope = s'.scopes.find? scope) :
    Tracks s' { l.note deed with owners } numbers waiting := by
  have hnumbered := h.numbered.note deed
  have hview : ∀ i, i ≠ l.current → (l.note deed).view i = l.view i :=
    fun i hne => view_note_of_ne hne deed
  refine ⟨bounded, ?_, ?_, ?_, ?_, ?_, ?_, fun scope i hi => (scopes scope i hi).2, ?_⟩
  · rw [← view_note_current] at current
    exact current
  · refine forall₂_of_mem_right h.outer fun c i hi hdepicts => ?_
    have hne : i ≠ l.current := fun eq => (List.nodup_cons.mp h.numbered.runsOnce).1 (eq ▸ hi)
    have hadvanced := hdepicts.advance advances
    rw [← hview i hne] at hadvanced
    exact hadvanced
  · intro j c i hj hi hidle
    have hne : i ≠ l.current := fun eq => hidle (eq ▸ List.mem_cons_self)
    rw [saved] at hj
    have hadvanced := (h.saved j c i hj hi hidle).advance advances
    rw [← hview i hne] at hadvanced
    exact hadvanced
  · rw [saved]
    exact h.length
  · rw [names, saved]
    exact h.named
  · rw [names]
    exact h.names
  · exact ⟨hnumbered.done, hnumbered.running, hnumbered.saved,
      fun scope i hi => (scopes scope i hi).1, hnumbered.runsOnce, hnumbered.savedOnce⟩

theorem Tracks.note (h : Tracks s l numbers waiting) (advances : Advances s s')
    (bounded : ∀ ref ∈ s'.copies, ref < s'.space.heap.size)
    (current : Depicts s' s'.space.current ((l.view l.current).apply deed))
    (saved : s'.saved = s.saved) (names : s'.names = s.names) (scopes : s'.scopes = s.scopes)
    (unscoped : ((l.view l.current).apply deed).scopes = (l.view l.current).scopes) :
    Tracks s' (l.note deed) numbers waiting := by
  refine h.noteScoped advances bounded current saved names fun scope i hi => ?_
  refine ⟨h.numbered.owners scope i hi, ?_⟩
  have hscope := h.scopes scope i hi
  by_cases heq : i = l.current
  · rw [heq] at hscope ⊢
    rw [view_note_current, unscoped, scopes, hscope]
  · rw [view_note_of_ne heq, scopes, hscope]

theorem Tracks.make (h : Tracks s l numbers waiting) (inherited : List ContextDeed) :
    Tracks s (l.make inherited) numbers waiting := by
  have hnumbered := h.numbered
  have hview : ∀ i, i < l.next → (l.make inherited).view i = l.view i :=
    fun i hlt => view_make hlt inherited
  refine ⟨h.bounded, ?_, ?_, ?_, h.length, h.named, h.names, ?_, h.numbered.make inherited⟩
  · have hcurrent := h.current
    rw [← hview l.current (hnumbered.running _ List.mem_cons_self)] at hcurrent
    exact hcurrent
  · refine forall₂_of_mem_right h.outer fun c i hi hdepicts => ?_
    rw [hview i (hnumbered.running i (List.mem_cons_of_mem _ hi))]
    exact hdepicts
  · intro j c i hj hi hidle
    rw [hview i (hnumbered.saved i (List.mem_of_getElem? hi))]
    exact h.saved j c i hj hi hidle
  · intro scope i hi
    rw [hview i (hnumbered.owners scope i hi)]
    exact h.scopes scope i hi

theorem getElem?_concat {α : Type} (xs : List α) (x : α) (j : Nat) :
    (xs ++ [x])[j]? = if j = xs.length then some x else xs[j]? := by
  by_cases h : j = xs.length
  · rw [if_pos h, h, List.getElem?_concat_length]
  · rw [if_neg h, List.getElem?_append]
    split
    next => rfl
    next hge => rw [List.getElem?_eq_none (by simp; omega), List.getElem?_eq_none (by omega)]

theorem saved_save (s : ContextRun) (name : String) (j : Nat) :
    (s.save name).saved[j]? = if j = s.saved.size then some s.space.current else s.saved[j]? :=
  Array.getElem?_push

theorem find?_names_save (s : ContextRun) (name other : String) :
    (s.save name).names.find? other =
      if other = name then some s.saved.size else s.names.find? other :=
  OrderedMap.find?_insert s.names name other s.saved.size

/-- A context that is saved is a new one, with the history of the one that saves it. -/
theorem Tracks.save (h : Tracks s l numbers waiting) (name : String) :
    Tracks (s.save name) { l.make (l.history l.current) with names := l.names.insert name l.next }
      (numbers ++ [l.next]) waiting := by
  have hmade := h.make (l.history l.current)
  have hadvances : Advances s (s.save name) := .of_heap rfl rfl
  have hlast : (l.make (l.history l.current)).view l.next = l.view l.current :=
    view_make_next h.numbered.done _
  have hsize : (s.save name).saved.size = s.saved.size + 1 := Array.size_push _
  refine ⟨h.bounded, hmade.current.advance hadvances, ?_, ?_, ?_, ?_, ?_, hmade.scopes,
    h.numbered.save _ _⟩
  · exact hmade.outer.imp fun _ _ hdepicts => hdepicts.advance hadvances
  · intro j c i hj hi hidle
    rw [saved_save] at hj
    rw [getElem?_concat, h.length] at hi
    by_cases hplace : j = s.saved.size
    · rw [if_pos hplace] at hj hi
      have hcurrent := h.current
      rw [Option.some.inj hj, ← hlast, Option.some.inj hi] at hcurrent
      exact hcurrent.advance hadvances
    · rw [if_neg hplace] at hj hi
      exact (hmade.saved j c i hj hi hidle).advance hadvances
  · rw [List.length_append, List.length_singleton, h.length, hsize]
  · intro other j hj
    rw [find?_names_save] at hj
    rw [hsize]
    split at hj
    next => exact (Option.some.inj hj) ▸ Nat.lt_succ_self _
    next => exact Nat.lt_succ_of_lt (h.named other j hj)
  · intro other
    rw [find?_names_save, OrderedMap.find?_insert]
    split
    next => rw [Option.bind_some, getElem?_concat, if_pos h.length.symm]
    next =>
      refine (h.names other).trans (Option.bind_congr fun j hfind => ?_)
      have hlt := h.named other j hfind
      rw [getElem?_concat, h.length, if_neg (Nat.ne_of_lt hlt)]

/-- Only one scope is entered or left at a time, and this in the current context. -/
theorem Tracks.scopes_of_update (h : Tracks s l numbers waiting) {scope : String}
    {value : Option (Option String)}
    (run : s'.scopes.find? = Function.update s.scopes.find? scope value)
    (viewed : ((l.view l.current).apply deed).scopes =
      Function.update (l.view l.current).scopes scope value) {owners : OrderedMap String Nat}
    (owned : ∀ other i, owners.find? other = some i →
      other = scope ∧ i = l.current ∨ other ≠ scope ∧ l.owners.find? other = some i) :
    ∀ other i, owners.find? other = some i →
      i < l.next ∧ ((l.note deed).view i).scopes other = s'.scopes.find? other := by
  intro other i hi
  rw [run]
  rcases owned other i hi with ⟨rfl, rfl⟩ | ⟨hne, hold⟩
  · refine ⟨h.numbered.running _ List.mem_cons_self, ?_⟩
    rw [view_note_current, viewed, Function.update_self, Function.update_self]
  · refine ⟨h.numbered.owners other i hold, ?_⟩
    rw [Function.update_of_ne hne, ← h.scopes other i hold]
    by_cases heq : i = l.current
    · rw [heq, view_note_current, viewed, Function.update_of_ne hne]
    · rw [view_note_of_ne heq]

theorem Tracks.enter (h : Tracks s l numbers waiting) (scope : String) (name : Option String) :
    Tracks (s.step (.enter scope name)).2 (l.noteStep (.enter scope name)) numbers waiting := by
  obtain ⟨hadvances, hbounded⟩ := step_advances h.bounded (.enter scope name)
  have hcurrent : Depicts (s.step (.enter scope name)).2 (s.step (.enter scope name)).2.space.current
      ((l.view l.current).apply (.step (.enter scope name))) :=
    ⟨h.current.sound, h.current.tables, rfl⟩
  have hrun : (s.step (.enter scope name)).2.scopes.find? =
      Function.update s.scopes.find? scope (some s.space.application) := by
    funext other
    rw [Function.update_apply]
    exact OrderedMap.find?_insert s.scopes scope other s.space.application
  have happlication : s.space.application = (l.view l.current).application := h.current.application
  rw [happlication] at hrun
  refine h.noteScoped hadvances hbounded hcurrent rfl rfl (h.scopes_of_update hrun rfl ?_)
  intro other i hi
  rw [OrderedMap.find?_insert] at hi
  by_cases heq : other = scope
  · rw [if_pos heq] at hi
    exact Or.inl ⟨heq, (Option.some.inj hi).symm⟩
  · rw [if_neg heq] at hi
    exact Or.inr ⟨heq, hi⟩

theorem find?_scopes_leave (s : ContextRun) (scope : String) :
    (s.leave scope).scopes.find? = Function.update s.scopes.find? scope none := by
  unfold leave
  cases hscope : s.scopes.find? scope with
  | none =>
    have hsame := Function.update_eq_self scope s.scopes.find?
    rw [hscope] at hsame
    exact hsame.symm
  | some before =>
    funext other
    rw [Function.update_apply]
    exact OrderedMap.find?_erase s.scopes scope other

theorem saved_leave (s : ContextRun) (scope : String) : (s.leave scope).saved = s.saved := by
  unfold leave
  cases s.scopes.find? scope <;> rfl

theorem names_leave (s : ContextRun) (scope : String) : (s.leave scope).names = s.names := by
  unfold leave
  cases s.scopes.find? scope <;> rfl

theorem Tracks.leave (h : Tracks s l numbers waiting) {scope : String}
    (allowed : l.owners.find? scope = some l.current) :
    Tracks (s.step (.leave scope)).2 (l.noteStep (.leave scope)) numbers waiting := by
  have hscope := h.scopes scope l.current allowed
  obtain ⟨hadvances, hbounded⟩ := step_advances h.bounded (.leave scope)
  have hleave : ∀ other, ContextStep.leave scope = .leave other →
      (l.view l.current).scopes other = s.scopes.find? other := by
    intro other heq
    cases heq
    exact hscope
  have hcurrent : Depicts (s.step (.leave scope)).2 (s.step (.leave scope)).2.space.current
      ((l.view l.current).apply (.step (.leave scope))) :=
    (step_depicts h.current h.bounded hleave).1
  have hviewed : ((l.view l.current).apply (.step (.leave scope))).scopes =
      Function.update (l.view l.current).scopes scope none := (l.view l.current).scopes_leave scope
  refine h.noteScoped hadvances hbounded hcurrent (s.saved_leave scope) (s.names_leave scope)
    (h.scopes_of_update (s.find?_scopes_leave scope) hviewed ?_)
  intro other i hi
  rw [OrderedMap.find?_erase] at hi
  by_cases heq : other = scope
  · rw [if_pos heq] at hi
    cases hi
  · rw [if_neg heq] at hi
    exact Or.inr ⟨heq, hi⟩

theorem owner_of_allows {scope : String} {result : ContextResult} {seen : ContextSpace}
    (allowed : l.allows (.acted (.leave scope) result seen) = true) :
    l.owners.find? scope = some l.current := by
  simpa only [allows, decide_eq_true_eq] using allowed

theorem Tracks.step_answer (h : Tracks s l numbers waiting) {step : ContextStep}
    {result : ContextResult} {seen : ContextSpace}
    (allowed : l.allows (.acted step result seen) = true) :
    Depicts (s.step step).2 (s.step step).2.space.current ((l.view l.current).act step) ∧
      (s.step step).1 = (l.view l.current).answer step := by
  refine step_depicts h.current h.bounded ?_
  rintro scope rfl
  exact h.scopes scope l.current (owner_of_allows allowed)

/-- One step: the context that takes it sees what its history says, and so do all others. -/
theorem Tracks.step (h : Tracks s l numbers waiting) {step : ContextStep} {result : ContextResult}
    {seen : ContextSpace} (allowed : l.allows (.acted step result seen) = true) :
    ∃ more, (∀ i ∈ more, l.next ≤ i) ∧
      Tracks (s.step step).2 (l.noteStep step) (numbers ++ more) waiting := by
  have hnone : ∀ l', Tracks (s.step step).2 l' numbers waiting →
      ∃ more, (∀ i ∈ more, l.next ≤ i) ∧ Tracks (s.step step).2 l' (numbers ++ more) waiting := by
    intro l' h'
    refine ⟨[], fun i hm => absurd hm List.not_mem_nil, ?_⟩
    rw [List.append_nil]
    exact h'
  obtain ⟨hadvances, hbounded⟩ := step_advances h.bounded step
  obtain ⟨hcurrent, -⟩ := h.step_answer allowed
  cases step with
  | put store key value => exact hnone _ (h.note hadvances hbounded hcurrent rfl rfl rfl rfl)
  | get store key => exact hnone _ (h.note hadvances hbounded hcurrent rfl rfl rfl rfl)
  | remove store key => exact hnone _ (h.note hadvances hbounded hcurrent rfl rfl rfl rfl)
  | clear store => exact hnone _ (h.note hadvances hbounded hcurrent rfl rfl rfl rfl)
  | snapshot store changes => exact hnone _ (h.note hadvances hbounded hcurrent rfl rfl rfl rfl)
  | alter copy changes => exact hnone _ (h.note hadvances hbounded hcurrent rfl rfl rfl rfl)
  | enter scope name => exact hnone _ (h.enter scope name)
  | leave scope => exact hnone _ (h.leave (owner_of_allows allowed))
  | save name =>
    have hnoted : Tracks s (l.note (.step (.save name))) numbers waiting :=
      h.note (.of_heap rfl rfl) h.bounded h.current rfl rfl rfl rfl
    exact ⟨[l.next], fun i hm => Nat.le_of_eq (List.mem_singleton.mp hm).symm, hnoted.save name⟩

theorem resumes_noteStep (h : l.Numbered numbers) (step : ContextStep) :
    Resumes l (l.noteStep step) := by
  have hnote : Resumes l (l.note (.step step)) := resumes_note (ContextView.blocks_act _ step)
  cases step with
  | save name =>
    have hmake := hnote.trans
      (resumes_make (h.note _) ((l.note (.step (.save name))).history l.current))
    exact ⟨hmake.current, hmake.outer, hmake.next_le, hmake.blocks⟩
  | enter scope name => exact ⟨hnote.current, hnote.outer, hnote.next_le, hnote.blocks⟩
  | leave scope => exact ⟨hnote.current, hnote.outer, hnote.next_le, hnote.blocks⟩
  | _ => exact hnote

end ContextRun

end LogContext
