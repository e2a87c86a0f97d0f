import LogContext.HookScript
import LogContext.Proofs.PairedStacks

namespace LogContext

open SectionStack

theorem StackCall.run_alike {ε σ τ : Type} {R : σ → τ → Prop} {hooks : HookKind → Hook ε σ}
    {others : HookKind → Hook ε τ} (alike : ∀ kind, Hook.Alike R (hooks kind) (others kind))
    (call : StackCall) : Work.Matches (Paired R) (call.run hooks) (call.run others) := by
  cases call with
  | push offers => exact (push_alike (alike .push) offers).map _
  | pop => exact (pop_alike (alike .remove)).map _

/-- One bench twice, with no more than so many scripts left. -/
def SameBench (count : Nat) (bench other : HookBench) : Prop :=
  other = bench ∧ bench.remaining ≤ count

theorem HookBench.remaining_take (bench : HookBench) (kind : HookKind) (property : String) :
    bench.take kind property = ([], bench) ∨
      (bench.take kind property).2.remaining + 1 = bench.remaining := by
  unfold HookBench.take
  cases hfind : (bench.scripts kind).find? (·.property = some property) with
  | none => exact Or.inl rfl
  | some script =>
    have hmem := List.mem_of_find?_eq_some hfind
    have hprop := List.find?_some hfind
    have hlength : ((bench.scripts kind).eraseP (·.property = some property)).length + 1 =
        (bench.scripts kind).length := by
      have hpos := List.length_pos_of_mem hmem
      rw [List.length_eraseP_of_mem hmem hprop]
      omega
    cases kind with
    | push =>
      simp only [HookBench.scripts] at hlength
      simp only [HookBench.remaining, HookBench.setScripts, HookBench.scripts]
      omega
    | remove =>
      simp only [HookBench.scripts] at hlength
      simp only [HookBench.remaining, HookBench.setScripts, HookBench.scripts]
      omega

theorem matches_note {count : Nat} (entry : JournalEntry) :
    Work.Matches (Paired (SameBench count)) (BenchWork.note entry) (BenchWork.note entry) := by
  intro s t h
  obtain ⟨hstack, hsame, hleft⟩ := h
  exact ⟨rfl, hstack, congrArg (HookBench.note · entry) hsame, hleft⟩

theorem noteEnd_alike {α : Type} {count : Nat} {work other : BenchWork α}
    (h : Work.Matches (Paired (SameBench count)) work other) (entry : Bool → JournalEntry) :
    Work.Matches (Paired (SameBench count)) (BenchWork.noteEnd entry work)
      (BenchWork.noteEnd entry other) :=
  h.attempt.bind fun _ => (matches_note _).bind fun _ => Work.matches_ofExcept _

theorem StackCall.runNoted_alike {count : Nat} {hooks others : HookKind → Hook Failure HookBench}
    (alike : ∀ kind, Hook.Alike (SameBench count) (hooks kind) (others kind)) (call : StackCall) :
    Work.Matches (Paired (SameBench count)) (call.runNoted hooks) (call.runNoted others) :=
  (matches_note _).bind fun _ => noteEnd_alike (call.run_alike alike) _

theorem HookAction.runAll_alike {count : Nat} {hooks others : HookKind → Hook Failure HookBench}
    (alike : ∀ kind, Hook.Alike (SameBench count) (hooks kind) (others kind))
    (actions : List HookAction) :
    Work.Matches (Paired (SameBench count)) (HookAction.runAll hooks actions)
      (HookAction.runAll others actions) := by
  induction actions with
  | nil => exact Work.matches_pure _
  | cons action rest ih =>
    refine Work.Matches.bind ?_ fun _ => ih
    cases action with
    | fail message => exact Work.matches_throw _
    | call c => exact (c.runNoted_alike alike).map _

theorem heardHook_alike {count : Nat} {react other : List HookAction → BenchWork Unit}
    (hnone : Work.Matches (Paired (SameBench count)) (react []) (other []))
    (hsome : ∀ left, left + 1 = count → ∀ actions,
      Work.Matches (Paired (SameBench left)) (react actions) (other actions))
    (kind : HookKind) :
    Hook.Alike (SameBench count) (heardHook react kind) (heardHook other kind) := by
  intro name value s t h
  obtain ⟨st, bench⟩ := s
  obtain ⟨st', bench'⟩ := t
  obtain ⟨hstack, hsame, hleft⟩ := h
  obtain rfl : st' = st := hstack
  obtain rfl : bench' = bench := hsame
  simp only [heardHook, BenchWork.note, BenchWork.take, Work.ends_bind, Work.ends_get,
    Work.ends_modify, Work.ends_modifyGet]
  have hnoted : (bench'.note (.hooked ⟨kind, name, value, st'⟩)).remaining ≤ count := hleft
  rcases HookBench.remaining_take (bench'.note (.hooked ⟨kind, name, value, st'⟩)) kind name with
    hsame | hless
  · rw [hsame]
    exact noteEnd_alike hnone _ _ _ ⟨rfl, rfl, hnoted⟩
  · obtain ⟨left, hcount⟩ : ∃ left, left + 1 = count := ⟨count - 1, by omega⟩
    have htaken : ((bench'.note (.hooked ⟨kind, name, value, st'⟩)).take kind name).2.remaining ≤
        left := by omega
    refine (noteEnd_alike (hsome left hcount _) _ (st', _) (st', _) ⟨rfl, rfl, htaken⟩).imp ?_
    intro r s' hr
    refine hr.imp ?_
    intro r' t' ht'
    obtain ⟨heq, hstate, hbench, hless'⟩ := ht'
    exact ⟨heq, hstate, hbench, by omega⟩

def reaction (heard : HookKind → Bool) : Nat → List HookAction → BenchWork Unit
  | 0 => fun _ => pure ()
  | depth + 1 => HookAction.runAll (scriptedHook heard depth)

theorem scriptedHook_eq (heard : HookKind → Bool) (depth : Nat) (kind : HookKind) :
    scriptedHook heard depth kind =
      if heard kind then heardHook (reaction heard depth) kind else silent := by
  cases depth <;> rfl

theorem reaction_nil (heard : HookKind → Bool) (depth : Nat) : reaction heard depth [] = pure () := by
  cases depth <;> rfl

/-- By induction on the scripts that are left: hooks that may nest at least as deeply as there are
scripts do the same. -/
theorem scriptedHook_alike (heard : HookKind → Bool) {count n m : Nat} (hn : count ≤ n)
    (hm : count ≤ m) (kind : HookKind) :
    Hook.Alike (SameBench count) (scriptedHook heard n kind) (scriptedHook heard m kind) := by
  induction count generalizing n m kind with
  | zero =>
    rw [scriptedHook_eq, scriptedHook_eq]
    split
    next =>
      refine heardHook_alike ?_ (fun left hcount => ?_) kind
      · rw [reaction_nil, reaction_nil]
        exact Work.matches_pure _
      · omega
    next => exact fun _ _ => Work.matches_pure _
  | succ count ih =>
    obtain ⟨n, rfl⟩ : ∃ k, n = k + 1 := ⟨n - 1, by omega⟩
    obtain ⟨m, rfl⟩ : ∃ k, m = k + 1 := ⟨m - 1, by omega⟩
    rw [scriptedHook_eq, scriptedHook_eq]
    split
    next =>
      refine heardHook_alike ?_ (fun left hcount actions => ?_) kind
      · rw [reaction_nil, reaction_nil]
        exact Work.matches_pure _
      · obtain rfl : left = count := by omega
        exact HookAction.runAll_alike (fun kind => ih (by omega) (by omega) kind) actions
    next => exact fun _ _ => Work.matches_pure _

/-- The bound on the nesting of hooks is never reached: every larger one gives the same run. -/
theorem StackCall.runNoted_eq_runScripted (heard : HookKind → Bool) (call : StackCall)
    (s : SectionStack × HookBench) {depth : Nat} (enough : s.2.remaining ≤ depth) :
    call.runNoted (scriptedHook heard depth) s = call.runScripted heard s := by
  have halike : ∀ kind, Hook.Alike (SameBench s.2.remaining) (scriptedHook heard depth kind)
      (scriptedHook heard s.2.remaining kind) :=
    fun kind => scriptedHook_alike heard enough (Nat.le_refl _) kind
  have hmatches := (call.runNoted_alike halike).leaves
    (⟨rfl, rfl, Nat.le_refl _⟩ : Paired (SameBench s.2.remaining) s s)
  obtain ⟨houtcome, hstack, hbench, -⟩ := hmatches
  exact Work.eq_of_outcome_of_leaves houtcome.symm (Prod.ext hstack hbench).symm

end LogContext
