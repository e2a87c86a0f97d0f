import LogContext.ContextProgram
import Mathlib.Logic.Function.Basic

namespace LogContext

/-- What is done in a context. To it, a block with another application is a pair of deeds. -/
inductive ContextDeed where
  | step (step : ContextStep)
  | opened (name : Option String)
  | closed

/-- Entries and application as they are to somebody who is alone with them. There are no tables in
common here: an ordered map belongs to each store. Scopes and blocks that are open hold the
application to go back to. -/
structure ContextView where
  tables : String → Table
  application : Option String
  scopes : String → Option (Option String)
  blocks : List (Option String)

namespace ContextView

def start : ContextView := ⟨fun _ => .empty, none, fun _ => none, []⟩

def write (v : ContextView) (store : String) (table : Table) : ContextView :=
  { v with tables := Function.update v.tables store table }

def leave (v : ContextView) (scope : String) : ContextView :=
  match v.scopes scope with
  | none => v
  | some before =>
    { v with application := before, scopes := Function.update v.scopes scope none }

def act (v : ContextView) : ContextStep → ContextView
  | .put store key value => v.write store ((v.tables store).insert key value)
  | .remove store key => v.write store ((v.tables store).erase key)
  | .clear store => v.write store .empty
  | .enter scope name =>
    { v with application := name, scopes := Function.update v.scopes scope (some v.application) }
  | .leave scope => v.leave scope
  | .get _ _ | .snapshot _ _ | .alter _ _ | .save _ => v

def apply (v : ContextView) : ContextDeed → ContextView
  | .step step => v.act step
  | .opened name => { v with application := name, blocks := v.application :: v.blocks }
  | .closed =>
    match v.blocks with
    | [] => v
    | before :: rest => { v with application := before, blocks := rest }

def replay (deeds : List ContextDeed) : ContextView := deeds.foldl apply start

/-- What a step answers to somebody with this view. -/
def answer (v : ContextView) : ContextStep → ContextResult
  | .get store key => .text ((v.tables store).find? key)
  | .snapshot store changes => .pairs ((v.tables store).insertAll changes).pairs
  | _ => .nothing

def Shows (v : ContextView) (s : ContextSpace) : Prop :=
  s.entries = v.tables ∧ s.application = v.application

theorem blocks_act (v : ContextView) (step : ContextStep) :
    (v.act step).blocks = v.blocks := by
  cases step with
  | leave scope =>
    simp only [act, leave]
    cases v.scopes scope <;> rfl
  | _ => rfl

theorem scopes_leave (v : ContextView) (scope : String) :
    (v.leave scope).scopes = Function.update v.scopes scope none := by
  unfold leave
  cases hscope : v.scopes scope with
  | none =>
    have hsame := Function.update_eq_self scope v.scopes
    rw [hscope] at hsame
    exact hsame.symm
  | some before => rfl

theorem apply_closed {v : ContextView} {before : Option String}
    {rest : List (Option String)} (h : v.blocks = before :: rest) :
    v.apply .closed = { v with application := before, blocks := rest } := by
  simp only [apply, h]

end ContextView

/-- Contexts are numbered in the order in which they were made. Each was made with the deeds it
inherits, and whatever is done is written down with the number of the context that does it. -/
structure ContextLedger where
  done : List (Nat × ContextDeed)
  inherited : List (List ContextDeed)
  current : Nat
  /-- Those that wait for the current context to end, the nearest first. -/
  outer : List Nat
  names : OrderedMap String Nat
  /-- In which context an open scope was entered. -/
  owners : OrderedMap String Nat

namespace ContextLedger

def start : ContextLedger := ⟨[], [[]], 0, [], .empty, .empty⟩

/-- What was done in a context, after what it inherits. -/
def history (l : ContextLedger) (i : Nat) : List ContextDeed :=
  l.inherited[i]?.getD [] ++ (l.done.filter (·.1 = i)).map Prod.snd

def view (l : ContextLedger) (i : Nat) : ContextView := .replay (l.history i)

def note (l : ContextLedger) (deed : ContextDeed) : ContextLedger :=
  { l with done := l.done ++ [(l.current, deed)] }

/-- Makes the context with the next number. -/
def make (l : ContextLedger) (inherited : List ContextDeed) : ContextLedger :=
  { l with inherited := l.inherited ++ [inherited] }

def next (l : ContextLedger) : Nat := l.inherited.length

def turnTo (l : ContextLedger) (i : Nat) : ContextLedger :=
  { l with current := i, outer := l.current :: l.outer }

def turnBack (l : ContextLedger) : ContextLedger :=
  match l.outer with
  | [] => l
  | i :: rest => { l with current := i, outer := rest }

def noteStep (l : ContextLedger) (step : ContextStep) : ContextLedger :=
  match step with
  | .save name =>
    { (l.note (.step step)).make ((l.note (.step step)).history l.current) with
      names := l.names.insert name l.next }
  | .enter scope _ => { l.note (.step step) with owners := l.owners.insert scope l.current }
  | .leave scope => { l.note (.step step) with owners := l.owners.erase scope }
  | _ => l.note (.step step)

def openBlock (l : ContextLedger) : ContextBlock → ContextLedger
  | .application name _ => l.note (.opened name)
  | .inside name =>
    match l.names.find? name with
    | some i => l.turnTo i
    | none => (l.make []).turnTo l.next
  | .copied => (l.make (l.history l.current)).turnTo l.next
  | .fresh => (l.make []).turnTo l.next

def closeBlock (l : ContextLedger) : ContextBlock → ContextLedger
  | .application _ _ => l.note .closed
  | .inside _ | .copied | .fresh => l.turnBack

/-- Goes by what was done, and never by what was seen. -/
def record (l : ContextLedger) : ContextEntry → ContextLedger
  | .opened head => l.openBlock head
  | .acted step _ _ => l.noteStep step
  | .closed head _ _ => l.closeBlock head

/-- A scope is left in the context in which it was entered, and no context is entered while it runs
already. -/
def allows (l : ContextLedger) : ContextEntry → Bool
  | .opened (.inside name) =>
    match l.names.find? name with
    | some i => !(l.current :: l.outer).contains i
    | none => true
  | .acted (.leave scope) _ _ => l.owners.find? scope = some l.current
  | _ => true

def allowsAll (l : ContextLedger) : List ContextEntry → Bool
  | [] => true
  | entry :: rest => l.allows entry && (l.record entry).allowsAll rest

def recordAll (l : ContextLedger) (entries : List ContextEntry) : ContextLedger :=
  entries.foldl record l

theorem recordAll_append (l : ContextLedger) (entries more : List ContextEntry) :
    l.recordAll (entries ++ more) = (l.recordAll entries).recordAll more :=
  List.foldl_append

theorem allowsAll_append {l : ContextLedger} {entries more : List ContextEntry} :
    l.allowsAll (entries ++ more) = true ↔
      l.allowsAll entries = true ∧ (l.recordAll entries).allowsAll more = true := by
  induction entries generalizing l with
  | nil => simp [allowsAll, recordAll]
  | cons entry rest ih =>
    have hrest := @ih (l.record entry)
    simp only [List.cons_append, allowsAll, Bool.and_eq_true, hrest, recordAll, List.foldl_cons,
      and_assoc]

variable {l : ContextLedger} {i : Nat}

theorem history_note_current (l : ContextLedger) (deed : ContextDeed) :
    (l.note deed).history l.current = l.history l.current ++ [deed] := by
  simp only [history, note, List.filter_append, List.map_append, List.append_assoc]
  simp

theorem view_note_current (l : ContextLedger) (deed : ContextDeed) :
    (l.note deed).view l.current = (l.view l.current).apply deed := by
  rw [view, history_note_current, ContextView.replay, List.foldl_append]
  rfl

theorem view_note_of_ne (hne : i ≠ l.current) (deed : ContextDeed) :
    (l.note deed).view i = l.view i := by
  have hnone : [(l.current, deed)].filter (·.1 = i) = [] := by simp [hne.symm]
  simp only [view, history, note, List.filter_append, hnone, List.append_nil]

theorem view_make (hlt : i < l.next) (inherited : List ContextDeed) :
    (l.make inherited).view i = l.view i := by
  simp only [view, history, make, List.getElem?_append_left hlt]

theorem view_make_next (fresh : ∀ entry ∈ l.done, entry.1 < l.next)
    (inherited : List ContextDeed) : (l.make inherited).view l.next = .replay inherited := by
  have hnone : l.done.filter (·.1 = l.next) = [] := by
    refine List.filter_eq_nil_iff.mpr fun entry hm => ?_
    have hlt := fresh entry hm
    simp only [decide_eq_true_eq]
    omega
  have hlast : (l.inherited ++ [inherited])[l.next]? = some inherited := List.getElem?_concat_length
  simp only [view, history, make, hlast, hnone, Option.getD_some, List.map_nil, List.append_nil]

/-- All numbers in use were given out; no context runs twice or is saved twice. -/
structure Numbered (l : ContextLedger) (numbers : List Nat) : Prop where
  done : ∀ entry ∈ l.done, entry.1 < l.next
  running : ∀ i ∈ l.current :: l.outer, i < l.next
  saved : ∀ i ∈ numbers, i < l.next
  owners : ∀ scope i, l.owners.find? scope = some i → i < l.next
  runsOnce : (l.current :: l.outer).Nodup
  savedOnce : numbers.Nodup

/-- The same contexts run as before, with the same blocks open. -/
structure Resumes (l l' : ContextLedger) : Prop where
  current : l'.current = l.current
  outer : l'.outer = l.outer
  next_le : l.next ≤ l'.next
  blocks : ∀ i ∈ l.current :: l.outer, (l'.view i).blocks = (l.view i).blocks

variable {l' l'' : ContextLedger} {numbers : List Nat}

theorem Resumes.refl (l : ContextLedger) : Resumes l l :=
  ⟨rfl, rfl, Nat.le_refl _, fun _ _ => rfl⟩

theorem Resumes.trans (h : Resumes l l') (h' : Resumes l' l'') : Resumes l l'' := by
  refine ⟨h'.current.trans h.current, h'.outer.trans h.outer,
    Nat.le_trans h.next_le h'.next_le, fun i hi => ?_⟩
  have hi' : i ∈ l'.current :: l'.outer := by rw [h.current, h.outer]; exact hi
  exact (h'.blocks i hi').trans (h.blocks i hi)

theorem Numbered.note (h : l.Numbered numbers) (deed : ContextDeed) :
    (l.note deed).Numbered numbers := by
  refine ⟨fun entry hm => ?_, h.running, h.saved, h.owners, h.runsOnce, h.savedOnce⟩
  rcases List.mem_append.mp hm with hm | hm
  · exact h.done entry hm
  · obtain rfl := List.mem_singleton.mp hm
    exact h.running _ List.mem_cons_self

theorem next_make (l : ContextLedger) (inherited : List ContextDeed) :
    (l.make inherited).next = l.next + 1 := by
  simp [next, make]

theorem Numbered.make (h : l.Numbered numbers) (inherited : List ContextDeed) :
    (l.make inherited).Numbered numbers := by
  have hle : l.next ≤ (l.make inherited).next := by rw [next_make]; omega
  exact ⟨fun entry hm => Nat.lt_of_lt_of_le (h.done entry hm) hle,
    fun i hi => Nat.lt_of_lt_of_le (h.running i hi) hle,
    fun i hi => Nat.lt_of_lt_of_le (h.saved i hi) hle,
    fun scope i hi => Nat.lt_of_lt_of_le (h.owners scope i hi) hle, h.runsOnce, h.savedOnce⟩

/-- A context that is saved gets a number that is not in use. -/
theorem Numbered.save (h : l.Numbered numbers) (inherited : List ContextDeed)
    (names : OrderedMap String Nat) :
    ({ l.make inherited with names } : ContextLedger).Numbered (numbers ++ [l.next]) := by
  have hmade := h.make inherited
  refine ⟨hmade.done, hmade.running, fun i hi => ?_, hmade.owners, hmade.runsOnce, ?_⟩
  · rcases List.mem_append.mp hi with hi | hi
    · exact hmade.saved i hi
    · rw [List.mem_singleton.mp hi]
      exact Nat.lt_of_lt_of_eq (Nat.lt_succ_self _) (next_make l inherited).symm
  · refine List.nodup_append.mpr ⟨h.savedOnce, by simp, ?_⟩
    rintro i hi _ hm rfl
    have hlt := h.saved i hi
    rw [List.mem_singleton.mp hm] at hlt
    exact Nat.lt_irrefl _ hlt

theorem resumes_make (h : l.Numbered numbers) (inherited : List ContextDeed) :
    Resumes l (l.make inherited) := by
  refine ⟨rfl, rfl, ?_, fun i hi => ?_⟩
  · rw [next_make]
    omega
  · rw [view_make (h.running i hi)]

theorem Numbered.turnTo (h : l.Numbered numbers) (hlt : i < l.next)
    (idle : i ∉ l.current :: l.outer) : (l.turnTo i).Numbered numbers := by
  refine ⟨h.done, fun j hj => ?_, h.saved, h.owners, List.nodup_cons.mpr ⟨idle, h.runsOnce⟩,
    h.savedOnce⟩
  rcases List.mem_cons.mp hj with rfl | hj
  · exact hlt
  · exact h.running j hj

theorem turnBack_of_outer {o : Nat} {rest : List Nat} (h : l.outer = o :: rest) :
    l.turnBack = { l with current := o, outer := rest } := by
  rw [turnBack, h]

theorem Numbered.turnBack {o : Nat} {rest : List Nat} (h : l.Numbered numbers)
    (outer : l.outer = o :: rest) : l.turnBack.Numbered numbers := by
  rw [turnBack_of_outer outer]
  have hrunning : ∀ j ∈ o :: rest, j < l.next := fun j hj =>
    h.running j (List.mem_cons_of_mem _ (outer ▸ hj))
  have honce : (o :: rest).Nodup := outer ▸ (List.nodup_cons.mp h.runsOnce).2
  exact ⟨h.done, hrunning, h.saved, h.owners, honce, h.savedOnce⟩

theorem resumes_note {deed : ContextDeed}
    (blocks : ((l.view l.current).apply deed).blocks = (l.view l.current).blocks) :
    Resumes l (l.note deed) := by
  refine ⟨rfl, rfl, Nat.le_refl _, fun i hi => ?_⟩
  by_cases heq : i = l.current
  · rw [heq, view_note_current, blocks]
  · rw [view_note_of_ne heq]

end ContextLedger

end LogContext
