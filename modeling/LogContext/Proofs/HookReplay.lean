import LogContext.Proofs.StackInvariant
import Mathlib.Logic.Function.Basic

namespace LogContext

open SectionStack

/-- Calls from outside, one after the other. A failure that escapes from a call ends only this
call. -/
def StackCall.runCaught (heard : HookKind → Bool) : List StackCall → BenchWork Unit
  | [] => pure ()
  | call :: rest => do
    let _ ← (call.runScripted heard).attempt
    runCaught heard rest

theorem StackCall.runCaught_ok (heard : HookKind → Bool) (calls : List StackCall)
    (s : SectionStack × HookBench) : ∃ t, StackCall.runCaught heard calls s = .ok () t := by
  induction calls generalizing s with
  | nil => exact ⟨s, rfl⟩
  | cons call rest ih =>
    simp only [StackCall.runCaught, bind, EStateM.bind, Work.attempt]
    cases call.runScripted heard s with
    | ok _ t => exact ih t
    | error _ t => exact ih t

theorem StackCall.runCaught_append (heard : HookKind → Bool) (calls more : List StackCall)
    {s t : SectionStack × HookBench} (h : StackCall.runCaught heard calls s = .ok () t) :
    StackCall.runCaught heard (calls ++ more) s = StackCall.runCaught heard more t := by
  induction calls generalizing s with
  | nil =>
    cases h
    rfl
  | cons call rest ih =>
    simp only [StackCall.runCaught, List.cons_append, bind, EStateM.bind, Work.attempt] at h ⊢
    cases hcall : call.runScripted heard s with
    | ok a u =>
      simp only [hcall] at h ⊢
      exact ih h
    | error e u =>
      simp only [hcall] at h ⊢
      exact ih h

theorem StackCall.runCaught_keeps {heard : HookKind → Bool} {I : SectionStack × HookBench → Prop}
    (h : ∀ call : StackCall, (call.runScripted heard).Keeps I) (calls : List StackCall) :
    (StackCall.runCaught heard calls).Keeps I := by
  induction calls with
  | nil => exact Work.keeps_pure _
  | cons call rest ih => exact (h call).attempt.bind fun _ => ih

theorem HookAction.runAll_keeps {hooks : HookKind → Hook Failure HookBench}
    {I : SectionStack × HookBench → Prop}
    (h : ∀ call : StackCall, (call.runNoted hooks).Keeps I) (actions : List HookAction) :
    (HookAction.runAll hooks actions).Keeps I := by
  induction actions with
  | nil => exact Work.keeps_pure _
  | cons action rest ih =>
    refine Work.Keeps.bind ?_ fun _ => ih
    cases action with
    | fail message => exact Work.keeps_throw _
    | call c => exact (h c).map _

section Bench

variable {calm : SectionStack × HookBench → Prop} {stirred : String → SectionStack × HookBench → Prop}

/-- An invariant of a stack and its bench that depends on the recorded hook calls only, and that a
recorded call restores. -/
structure BenchInvariant (calm : SectionStack × HookBench → Prop)
    (stirred : String → SectionStack × HookBench → Prop) : Prop extends Invariant calm stirred where
  unseen : ∀ st (bench bench' : HookBench), bench'.hookCalls = bench.hookCalls →
    calm (st, bench) → calm (st, bench')
  record : ∀ kind name st bench, stirred name (st, bench) →
    calm (st, bench.note (.hooked ⟨kind, name, st.latest name, st⟩))

theorem HookBench.hookCalls_note_none (bench : HookBench) {entry : JournalEntry}
    (h : entry.hookCall? = none) : (bench.note entry).hookCalls = bench.hookCalls := by
  simp [HookBench.hookCalls, HookBench.note, h]

theorem HookBench.hookCalls_note_hooked (bench : HookBench) (call : HookCall) :
    (bench.note (.hooked call)).hookCalls = bench.hookCalls ++ [call] := by
  simp [HookBench.hookCalls, HookBench.note, JournalEntry.hookCall?]

theorem HookBench.hookCalls_take (bench : HookBench) (kind : HookKind) (property : String) :
    (bench.take kind property).2.hookCalls = bench.hookCalls := by
  unfold HookBench.take
  split
  next => rfl
  next => cases kind <;> rfl

theorem BenchInvariant.noteEnd {α : Type} (inv : BenchInvariant calm stirred) {work : BenchWork α}
    (h : work.Keeps calm) {entry : Bool → JournalEntry}
    (hentry : ∀ well, (entry well).hookCall? = none) :
    (BenchWork.noteEnd entry work).Keeps calm := by
  refine h.attempt.bind fun outcome => Work.Keeps.bind ?_ fun _ => Work.keeps_ofExcept _
  intro start hs
  obtain ⟨st, bench⟩ := start
  exact inv.unseen st bench _ (bench.hookCalls_note_none (hentry _)) hs

theorem BenchInvariant.runNoted (inv : BenchInvariant calm stirred)
    {hooks : HookKind → Hook Failure HookBench} (settles : ∀ kind, Settles calm stirred (hooks kind))
    (call : StackCall) : (call.runNoted hooks).Keeps calm := by
  refine Work.Keeps.bind ?_ fun _ =>
    inv.noteEnd (call.run_keeps inv.toInvariant settles) fun _ => rfl
  intro start hs
  obtain ⟨st, bench⟩ := start
  exact inv.unseen st bench _ (bench.hookCalls_note_none rfl) hs

theorem BenchInvariant.runAll (inv : BenchInvariant calm stirred)
    {hooks : HookKind → Hook Failure HookBench} (settles : ∀ kind, Settles calm stirred (hooks kind))
    (actions : List HookAction) : (HookAction.runAll hooks actions).Keeps calm :=
  HookAction.runAll_keeps (inv.runNoted settles) actions

theorem BenchInvariant.heardHook (inv : BenchInvariant calm stirred)
    {react : List HookAction → BenchWork Unit} (hreact : ∀ actions, (react actions).Keeps calm)
    (kind : HookKind) : Settles calm stirred (LogContext.heardHook react kind) := by
  intro name st bench hs
  simp only [LogContext.heardHook, BenchWork.note, BenchWork.take, Work.ends_bind, Work.ends_get,
    Work.ends_modify, Work.ends_modifyGet]
  refine inv.noteEnd (hreact _) (fun _ => rfl) _ ?_
  exact inv.unseen st _ _ (HookBench.hookCalls_take _ kind name) (inv.record kind name st bench hs)

/-- By induction on how deeply hooks may call the stack: the hooks one level deeper settle, so the
calls that a hook makes keep the invariant. A hook that is not heard leaves all as it is. -/
theorem BenchInvariant.scriptedHook_of_heard (inv : BenchInvariant calm stirred)
    {heard : HookKind → Bool}
    (unheard : ∀ kind, heard kind = false → ∀ name s, stirred name s → calm s) (depth : Nat)
    (kind : HookKind) : Settles calm stirred (LogContext.scriptedHook heard depth kind) := by
  induction depth generalizing kind with
  | zero =>
    rw [LogContext.scriptedHook]
    split
    next => exact inv.heardHook (fun _ => Work.keeps_pure _) kind
    next h => exact fun name st s => unheard kind (eq_false_of_ne_true h) name (st, s)
  | succ depth ih =>
    rw [LogContext.scriptedHook]
    split
    next => exact inv.heardHook (fun actions => inv.runAll ih actions) kind
    next h => exact fun name st s => unheard kind (eq_false_of_ne_true h) name (st, s)

theorem BenchInvariant.runCaught_of_heard (inv : BenchInvariant calm stirred)
    {heard : HookKind → Bool}
    (unheard : ∀ kind, heard kind = false → ∀ name s, stirred name s → calm s)
    (calls : List StackCall) : (StackCall.runCaught heard calls).Keeps calm := by
  refine StackCall.runCaught_keeps (fun call s hs => ?_) calls
  rw [StackCall.runScripted, Work.ends_bind, Work.ends_get]
  exact inv.runNoted (inv.scriptedHook_of_heard unheard s.2.remaining) call s hs

theorem BenchInvariant.runCaught (inv : BenchInvariant calm stirred) (calls : List StackCall) :
    (StackCall.runCaught (fun _ => true) calls).Keeps calm :=
  inv.runCaught_of_heard (fun _ h => by cases h) calls

end Bench

/-- The recorded calls, read as changes of a snapshot that is blank at first. -/
def HookCall.replay (calls : List HookCall) : Snapshot :=
  calls.foldl (fun m call => Function.update m call.property call.value) .blank

theorem HookCall.replay_append (calls : List HookCall) (call : HookCall) (name : String) :
    HookCall.replay (calls ++ [call]) name =
      if name = call.property then call.value else HookCall.replay calls name := by
  rw [HookCall.replay, List.foldl_append]
  exact Function.update_apply ..

/-- Each call was made with the latest value, and up to this call the record gives the stack. -/
def HookCall.Faithful (calls : List HookCall) : Prop :=
  ∀ earlier call later, calls = earlier ++ call :: later →
    call.value = call.stack.latest call.property ∧
      ∀ name, HookCall.replay (earlier ++ [call]) name = call.stack.latest name

/-- An entry of a longer list is the last one or one of those before. -/
theorem eq_or_eq_of_concat_eq {α : Type} {xs earlier later : List α} {x y : α}
    (h : xs ++ [x] = earlier ++ y :: later) :
    earlier = xs ∧ y = x ∨ ∃ later', xs = earlier ++ y :: later' := by
  rcases List.eq_nil_or_concat later with rfl | ⟨later, last, rfl⟩
  · obtain ⟨rfl, hlast⟩ := List.append_inj' h rfl
    cases hlast
    exact Or.inl ⟨rfl, rfl⟩
  · rw [List.concat_eq_append, ← List.cons_append, ← List.append_assoc] at h
    exact Or.inr ⟨later, (List.append_inj' h rfl).1⟩

theorem HookCall.faithful_append {calls : List HookCall} {call : HookCall}
    (h : HookCall.Faithful calls) (hvalue : call.value = call.stack.latest call.property)
    (hreplay : ∀ name, HookCall.replay (calls ++ [call]) name = call.stack.latest name) :
    HookCall.Faithful (calls ++ [call]) := by
  intro earlier other later heq
  rcases eq_or_eq_of_concat_eq heq with ⟨rfl, rfl⟩ | ⟨later', hcalls⟩
  · exact ⟨hvalue, hreplay⟩
  · exact h earlier other later' hcalls

theorem benchInvariant_replay :
    BenchInvariant
      (fun s => Mirrors (fun _ => True) (fun bench : HookBench => HookCall.replay bench.hookCalls) s ∧
        HookCall.Faithful s.2.hookCalls)
      (fun name s => Mirrors (fun other => True ∧ other ≠ name)
          (fun bench : HookBench => HookCall.replay bench.hookCalls) s ∧
        HookCall.Faithful s.2.hookCalls) where
  toInvariant := (invariant_mirrors _ _).and
    (invariant_beside fun bench : HookBench => HookCall.Faithful bench.hookCalls)
  unseen := by
    intro st bench bench' heq h
    obtain ⟨hm, hf⟩ := h
    refine ⟨fun name hn => ?_, heq ▸ hf⟩
    simp only [heq]
    exact hm name hn
  record := by
    intro kind name st bench h
    obtain ⟨hm, hf⟩ := h
    have hreplay : ∀ other, HookCall.replay
        (bench.hookCalls ++ [⟨kind, name, st.latest name, st⟩]) other = st.latest other := by
      intro other
      rw [HookCall.replay_append]
      by_cases eq : other = name
      · rw [if_pos eq, eq]
      · rw [if_neg eq]
        exact hm other ⟨trivial, eq⟩
    simp only [Mirrors, HookBench.hookCalls_note_hooked]
    exact ⟨fun other _ => hreplay other, HookCall.faithful_append hf rfl hreplay⟩

/-- However hooks fail or use the stack again: every hook is told the latest value of its property,
and the record of the hook calls replays to the stack, right after each of them is recorded and
whenever no call is under way. -/
theorem hook_record_replays_to_stack (onPush onRemove : List HookScript)
    (calls : List StackCall) :
    ∃ st bench,
      StackCall.runCaught (fun _ => true) calls (.empty, .ofScripts onPush onRemove) =
        .ok () (st, bench) ∧
      (∀ name, HookCall.replay bench.hookCalls name = st.latest name) ∧
      HookCall.Faithful bench.hookCalls := by
  obtain ⟨⟨st, bench⟩, hrun⟩ := StackCall.runCaught_ok (fun _ => true) calls
    (.empty, .ofScripts onPush onRemove)
  have hstart : HookCall.Faithful [] := by
    intro earlier call later heq
    simp at heq
  have hends := benchInvariant_replay.runCaught calls (.empty, .ofScripts onPush onRemove)
    ⟨fun _ _ => rfl, hstart⟩
  obtain ⟨hmirror, hfaithful⟩ := (Work.ends_of_ok hrun).mp hends
  exact ⟨st, bench, hrun, fun name => hmirror name trivial, hfaithful⟩

/-- A hook pops the section that is being pushed, another pushes and then fails. -/
example :
    ((StackCall.runCaught (fun _ => true)
      [.push [(some "a", some "1"), (some "c", some "2")], .pop]).leaves
        (.empty, .ofScripts
          [⟨some "a", [.call .pop, .call (.push [(some "b", some "1")])]⟩]
          [⟨some "a", [.call (.push [(some "d", some "d")]), .fail "x"]⟩])).2.hookCalls.map
            (fun (c : HookCall) => (c.property, c.value)) =
      [("a", some "1"), ("a", none), ("d", some "d"), ("d", none)] := by
  decide +kernel

end LogContext
