import LogContext.Proofs.ProjectionRun
import LogContext.Proofs.SectionBracket

namespace LogContext

open SectionStack

/-- Offering what every key has in another snapshot changes something exactly if a key has another
value there. -/
theorem Snapshot.fst_foldl_offer (f : Snapshot) {keys : List String}
    (usable : ∀ key ∈ keys, isBlank key = false) (draft : Bool × Snapshot) :
    ((keys.map fun key => (some key, f key)).foldl Snapshot.offer draft).1 = true ↔
      draft.1 = true ∨ ∃ key ∈ keys, draft.2 key ≠ f key := by
  induction keys generalizing draft with
  | nil => simp
  | cons first rest ih =>
    obtain ⟨changed, m⟩ := draft
    have hfirst : isBlank first = false := usable first List.mem_cons_self
    rw [List.map_cons, List.foldl_cons,
      ih fun key hkey => usable key (List.mem_cons_of_mem _ hkey)]
    by_cases heq : m first = f first
    · have hkeep : Snapshot.offer (changed, m) (some first, f first) = (changed, m) :=
        if_pos (Or.inr heq)
      rw [hkeep]
      simp only [List.mem_cons, exists_eq_or_imp, heq, ne_eq, not_true_eq_false, false_or]
    · have hchange : Snapshot.offer (changed, m) (some first, f first) =
          (true, Function.update m first (f first)) := if_neg (by simp [hfirst, heq])
      rw [hchange]
      simp only [List.mem_cons, exists_eq_or_imp, heq, ne_eq, not_false_eq_true, true_or, or_true]

namespace Projection

variable {ε σ α : Type} {p : Projection ε σ} {stored : σ → Snapshot} {K : σ → Prop}
  {others : Work ε σ Unit → Prop}

/-- Work that uses the projection through sections around further such work only. It may fail, handle
failures, look at everything there is, and do other work of a kind beside the stack. -/
inductive Nests (p : Projection ε σ) (others : Work ε σ Unit → Prop) :
    {α : Type} → Work ε (SectionStack × σ) α → Prop
  | done {α : Type} (a : α) : Nests p others (pure a)
  | fail {α : Type} (e : ε) : Nests p others (throw e : Work ε (SectionStack × σ) α)
  | look : Nests p others get
  | other {work : Work ε σ Unit} (h : others work) : Nests p others work.beside
  | andThen {α β : Type} {work : Work ε (SectionStack × σ) α}
      {rest : α → Work ε (SectionStack × σ) β} (h : Nests p others work)
      (hrest : ∀ a, Nests p others (rest a)) : Nests p others (work >>= rest)
  | attempt {α : Type} {work : Work ε (SectionStack × σ) α} (h : Nests p others work) :
      Nests p others work.attempt
  | inSection {α : Type} (view : ExecutionView ε) {body : Bool → Work ε (SectionStack × σ) α}
      (h : ∀ changed, Nests p others (body changed)) : Nests p others (p.inSection view body)

/-- By induction on the nesting: each section restores the stack around the sections inside it. -/
theorem Nests.restores (steady : p.Steady K False) (hothers : ∀ work, others work → work.Keeps K)
    {work : Work ε (SectionStack × σ) α} (h : p.Nests others work) : work.Restores K := by
  induction h with
  | done a => exact Work.restores_pure a
  | fail e => exact Work.restores_throw e
  | look => exact Work.restores_get
  | other h => exact (hothers _ h).beside_restores
  | andThen _ _ ih ihrest => exact ih.bind ihrest
  | attempt _ ih => exact ih.attempt
  | inSection view _ ih => exact steady.inSection view ih

theorem Nests.keeps {I : SectionStack × σ → Prop} (hpush : ∀ view, (p.push view).Keeps I)
    (hpop : p.pop.Keeps I) (hothers : ∀ work, others work → work.beside.Keeps I)
    {work : Work ε (SectionStack × σ) α} (h : p.Nests others work) : work.Keeps I := by
  induction h with
  | done a => exact Work.keeps_pure a
  | fail e => exact Work.keeps_throw e
  | look => exact Work.keeps_get
  | other h => exact hothers _ h
  | andThen _ _ ih ihrest => exact ih.bind ihrest
  | attempt _ ih => exact ih.attempt
  | inSection view _ ih => exact (hpush view).bracket hpop ih

/-- The logger of the projection takes every report. -/
def ReportsSucceed (p : Projection ε σ) : Prop :=
  ∀ message sections s, ∃ t, p.report message sections s = .ok () t

/-- Other work that leaves what the store holds as it is. -/
abbrev LeavesStore (stored : σ → Snapshot) (work : Work ε σ Unit) : Prop :=
  ∀ s, stored (work.leaves s) = stored s

/-- A projection does not touch what is stored under other keys. -/
theorem Owns.steady (owns : p.Owns stored) (reports : p.ReportsSucceed) (m : Snapshot) :
    p.Steady (fun s => ∀ key ∉ p.config.propertyNames, stored s key = m key) False where
  write := by
    intro key hkey value s hs
    obtain ⟨t, ht, hstored⟩ := owns.write key value s
    rw [Work.endsUnless_of_ok ht]
    intro other ho
    have hne : other ≠ key := fun eq => ho (eq ▸ hkey)
    rw [hstored, Function.update_of_ne hne]
    exact hs other ho
  application := by
    intro s hs
    refine Work.ends_leaves.mpr fun key hkey => ?_
    rw [owns.application]
    exact hs key hkey
  report := by
    intro message sections s hs
    obtain ⟨t, ht⟩ := reports message sections s
    have hstored := owns.report message sections s
    rw [Work.leaves, ht] at hstored
    rw [Work.endsUnless_of_ok ht]
    intro key hkey
    rw [hstored]
    exact hs key hkey

/-- Nothing that a section does fails by itself, once its execution is read. -/
theorem Owns.unfailing (owns : p.Owns stored) (reports : p.ReportsSucceed) :
    p.Steady (fun _ => True) False where
  write := by
    intro key _ value s _
    obtain ⟨t, ht, -⟩ := owns.write key value s
    exact (Work.endsUnless_of_ok ht).mpr trivial
  application := Work.keeps_true _
  report := by
    intro message sections s _
    obtain ⟨t, ht⟩ := reports message sections s
    exact (Work.endsUnless_of_ok ht).mpr trivial

theorem LeavesStore.keeps_agrees {work : Work ε σ Unit} (h : LeavesStore stored work) :
    (work.beside : Work ε (SectionStack × σ) Unit).Keeps (p.Agrees stored) := by
  intro s hs
  rw [Work.ends_beside]
  refine (Work.ends_leaves (p := fun t => p.Agrees stored (s.1, t))).mpr fun key hkey => ?_
  simp only [h]
  exact hs key hkey

/-- Where store and stack agree, work that nests sections leaves the store as it was, and the stack
with the same open sections and frames. -/
theorem Owns.nests_restores (owns : p.Owns stored) (reports : p.ReportsSucceed)
    {work : Work ε (SectionStack × σ) α} (nests : p.Nests (LeavesStore stored) work)
    {st : SectionStack} {s : σ} (agrees : p.Agrees stored (st, s)) :
    work.Ends (st, s) fun _ t => t.1.SameOpen st ∧ stored t.2 = stored s := by
  have hothers : ∀ other : Work ε σ Unit, LeavesStore stored other →
      other.Keeps fun t => ∀ key ∉ p.config.propertyNames, stored t key = stored s key := by
    intro other hother t ht
    refine Work.ends_leaves.mpr fun key hkey => ?_
    rw [hother]
    exact ht key hkey
  have hrestores := nests.restores (owns.steady reports (stored s)) hothers st s fun _ _ => rfl
  have hr := p.respects_true
  have hpush : ∀ view, (p.push view).Keeps (p.Agrees stored) := fun view t ht =>
    (owns.push hr view t.1 t.2 (fun _ => ht) trivial).imp fun _ _ hu => hu.1
  have hpop : p.pop.Keeps (p.Agrees stored) := fun t ht =>
    ((owns.settled hr).pop t ⟨ht, trivial⟩).imp fun _ _ hu => hu.1
  have hagrees := nests.keeps hpush hpop (fun _ hother => hother.keeps_agrees) (st, s) agrees
  refine (hrestores.and hagrees).imp ?_
  intro _ t ht
  obtain ⟨⟨hsame, hleft⟩, hagrees⟩ := ht
  refine ⟨hsame, funext fun key => ?_⟩
  by_cases hkey : key ∈ p.config.propertyNames
  · rw [hagrees key hkey, hsame.latest_eq]
    exact (agrees key hkey).symm
  · exact hleft key hkey

theorem fetch_of_not_isEnabled (disabled : p.config.isEnabled ≠ true) : p.fetch = pure false :=
  if_neg disabled

/-- A fetch opens a section exactly if the stack disagreed with the store, and then lists active keys
in it. -/
theorem Owns.fetch_ok (owns : p.Owns stored) (reports : p.ReportsSucceed)
    (enabled : p.config.isEnabled = true) (st : SectionStack) (s : σ) :
    ∃ changed st' t, p.fetch (st, s) = .ok changed (st', t) ∧
      (changed = true ↔ ∃ key ∈ p.config.propertyNames, st.latest key ≠ stored s key) ∧
      Pushed st p.Active changed st' ∧ stored t = stored s := by
  obtain ⟨t, hread, hstored, _⟩ :=
    owns.storedOffers p.respects_true p.config.propertyNames s trivial
  let offers : List Offer := p.config.propertyNames.map fun key => (some key, stored s key)
  obtain ⟨st', u, hpush, _⟩ := push_snapshots (quiet_silent (ε := ε)) offers st t
  have hsame : u = t := (Work.ends_of_ok hpush).mp (push_silent_keeps offers t (st, t) rfl)
  have hactive : AllActive p.Active offers := by
    intro offer ho key hkey
    obtain ⟨name, hname, rfl⟩ := List.mem_map.mp ho
    cases hkey
    exact hname
  have hpushed := push_pushed (aloof_silent (ε := ε) p.Active fun _ : σ => True) hactive st
    (s := t) trivial
  rw [Work.endsUnless_of_ok hpush] at hpushed
  have hflag : (st.snapshots.push offers).1 = true ↔
      ∃ key ∈ p.config.propertyNames, st.latest key ≠ stored s key := by
    rw [SnapshotStack.fst_push, Snapshot.fst_foldl_offer (stored s)
      fun _ => Config.not_isBlank_of_mem_propertyNames]
    simp only [Bool.false_eq_true, false_or]
    rfl
  subst hsame
  cases hchanged : (st.snapshots.push offers).1 with
  | false =>
    rw [hchanged] at hpush hpushed hflag
    refine ⟨false, st', u, ?_, hflag, hpushed.1, hstored⟩
    simp only [Projection.fetch, enabled, ↓reduceIte, bind, EStateM.bind, Work.beside, hread]
    rw [hpush]
    rfl
  | true =>
    rw [hchanged] at hpush hpushed hflag
    obtain ⟨v, hreport⟩ := reports fetchedMessage (some st'.sectionCount) u
    have hleft := owns.report fetchedMessage (some st'.sectionCount) u
    rw [Work.leaves, hreport] at hleft
    have hsections : p.reportSections fetchedMessage (st', u) = .ok () (st', v) := by
      simp only [Projection.reportSections, Work.get_bind, Work.beside, hreport]
    refine ⟨true, st', v, ?_, hflag, hpushed.1, hleft.trans hstored⟩
    simp only [Projection.fetch, enabled, ↓reduceIte, bind, EStateM.bind, Work.beside, hread]
    rw [hpush]
    simp only [↓reduceIte, EStateM.bind, hsections]
    rfl

theorem storedOffers_with_writes (p : Projection ε σ) (put : String → String → Work ε σ Unit)
    (remove : String → Work ε σ Unit) (keys : List String) :
    { p with put, remove }.storedOffers keys = p.storedOffers keys := by
  induction keys with
  | nil => rfl
  | cons key rest ih => simp only [Projection.storedOffers, ih]

/-- A fetch does the same whatever a write to the store would do: it makes none. -/
theorem fetch_with_writes (p : Projection ε σ) (put : String → String → Work ε σ Unit)
    (remove : String → Work ε σ Unit) : { p with put, remove }.fetch = p.fetch := by
  simp only [Projection.fetch, storedOffers_with_writes]
  rfl

end Projection

theorem Setup.reportsSucceed_projection (setup : Setup) (index : Nat) (p : ProjectionSetup) :
    (setup.projection index p).ReportsSucceed := by
  intro message sections w
  simp only [Setup.projection]
  cases p.logger with
  | none => exact ⟨w, rfl⟩
  | some logger => exact World.emit_ok setup logger _ _ _ w

/-- A section that fails, inside another one that goes on. -/
def failingSections : Work Failure (SectionStack × World) Unit :=
  shopProjection.inSection (.ofExecution { activityId := some "order" }) fun _ => do
    let _ ← (shopProjection.inSection (.ofExecution { activityId := some "pay" }) fun _ =>
      throw (.raised "no money") : Work Failure (SectionStack × World) Unit).attempt
    pure ()

theorem failingSections_nests (stored : World → Snapshot) :
    shopProjection.Nests (Projection.LeavesStore stored) failingSections :=
  .inSection _ fun _ => .andThen (.attempt (.inSection _ fun _ => .fail _)) fun _ => .done _

namespace Projection

variable {ε σ α : Type} {p : Projection ε σ} {stored : σ → Snapshot}

/-- A nested invocation gives its caller's context back. From any state, however store and stack
disagree: a fetch writes nothing, brings the stack to agree with the store and says whether it did
not before; and whatever nests sections after it, and however this ends, what the fetch has opened is
still open then, and the store holds what it held before. -/
theorem fetch_keeps_caller_context (owns : p.Owns stored) (reports : p.ReportsSucceed)
    (enabled : p.config.isEnabled = true) {work : Work ε (SectionStack × σ) α}
    (nests : p.Nests (LeavesStore stored) work) (st : SectionStack) (s : σ) :
    (∀ put remove, { p with put, remove }.fetch = p.fetch) ∧
      ∃ changed st' t, p.fetch (st, s) = .ok changed (st', t) ∧
        (changed = true ↔ ∃ key ∈ p.config.propertyNames, st.latest key ≠ stored s key) ∧
        stored t = stored s ∧
        (∀ key ∈ p.config.propertyNames, st'.latest key = stored t key) ∧
        (work.leaves (st', t)).1.SameOpen st' ∧
        stored (work.leaves (st', t)).2 = stored s := by
  obtain ⟨changed, st', t, hfetch, hflag, _, hstored⟩ := owns.fetch_ok reports enabled st s
  have hagrees := ((Work.ends_of_ok hfetch).mp (owns.fetch p.respects_true st s trivial)).1
  refine ⟨p.fetch_with_writes, changed, st', t, hfetch, hflag, hstored,
    fun key hkey => (hagrees key hkey).symm, ?_⟩
  obtain ⟨hsame, hback⟩ := Work.ends_leaves.mp (owns.nests_restores reports nests hagrees)
  exact ⟨hsame, hback.trans hstored⟩

/-- The store holds an activity that the projection does not know of. -/
theorem fetch_keeps_caller_context_of_failure :
    ∃ t, shopProjection.fetch (.empty, leftOverSetup.world) = .ok true t ∧
      World.stored leftOverSetup.backing (failingSections.leaves t).2 =
        World.stored leftOverSetup.backing leftOverSetup.world := by
  have hreports : shopProjection.ReportsSucceed := Setup.reportsSucceed_projection _ 0 _
  obtain ⟨-, changed, st', t, hfetch, hflag, -, -, -, hstored⟩ :=
    fetch_keeps_caller_context owns_shopProjection hreports (by decide +kernel)
      (failingSections_nests _) .empty leftOverSetup.world
  have hchanged : changed = true := hflag.mpr ⟨"activityId", by decide +kernel, by decide +kernel⟩
  rw [hchanged] at hfetch
  exact ⟨(st', t), hfetch, hstored⟩

/-- Popping a fetched section gives the store the values that the stack had before the fetch. So at
least one active key loses the value that was found in the store. -/
theorem pop_fetched_restores_stack (owns : p.Owns stored) (reports : p.ReportsSucceed)
    {work : Work ε (SectionStack × σ) α} (nests : p.Nests (LeavesStore stored) work)
    {st st' : SectionStack} {s t : σ} (fetched : p.fetch (st, s) = .ok true (st', t)) :
    ∃ st'' u, p.pop (work.leaves (st', t)) = .ok () (st'', u) ∧ st''.SameOpen st ∧
      (∀ key ∈ p.config.propertyNames, stored u key = st.latest key) ∧
      (∀ key ∉ p.config.propertyNames, stored u key = stored s key) ∧
      ∃ key ∈ p.config.propertyNames, stored u key ≠ stored s key := by
  by_cases henabled : p.config.isEnabled = true
  case neg =>
    rw [fetch_of_not_isEnabled henabled] at fetched
    cases fetched
  obtain ⟨_, _, _, hfetch, hflag, hpushed, hstored⟩ := owns.fetch_ok reports henabled st s
  rw [fetched] at hfetch
  cases hfetch
  obtain ⟨opened, hmore, hactive⟩ := hpushed
  obtain ⟨key, hkey, hlost⟩ := hflag.mp rfl
  have hagrees := ((Work.ends_of_ok fetched).mp (owns.fetch p.respects_true st s trivial)).1
  obtain ⟨hsame, hnested⟩ := Work.ends_leaves.mp (owns.nests_restores reports nests hagrees)
  have hleft : ∀ key ∉ p.config.propertyNames,
      stored (work.leaves (st', t)).2 key = stored s key :=
    fun key _ => congrFun (hnested.trans hstored) key
  obtain ⟨_, ⟨st'', u⟩, hpop, hback, hother⟩ :=
    ((owns.steady reports (stored s)).pop henabled (hmore.of_sameOpen hsame) hactive
      hleft).exists_ok
  have hends : p.Agrees stored (work.leaves (st', t)) := by
    intro other ho
    rw [hnested, hsame.latest_eq]
    exact hagrees other ho
  have hafter := (Work.ends_of_ok hpop).mp
    ((owns.settled p.respects_true).pop (work.leaves (st', t)) ⟨hends, trivial⟩)
  have hvalues : ∀ key ∈ p.config.propertyNames, stored u key = st.latest key := by
    intro other ho
    rw [← hback.latest_eq]
    exact hafter.1 other ho
  refine ⟨st'', u, hpop, hback, hvalues, hother, key, hkey, ?_⟩
  rw [hvalues key hkey]
  exact hlost

theorem pop_fetched_restores_stack_of_failure :
    ∃ t u, shopProjection.fetch (.empty, leftOverSetup.world) = .ok true t ∧
      shopProjection.pop (failingSections.leaves t) = .ok () u ∧
      ∀ key ∈ shopProjection.config.propertyNames,
        World.stored leftOverSetup.backing u.2 key = none := by
  have hreports : shopProjection.ReportsSucceed := Setup.reportsSucceed_projection _ 0 _
  obtain ⟨changed, st', t, hfetch, hflag, -⟩ :=
    owns_shopProjection.fetch_ok hreports (by decide +kernel) .empty leftOverSetup.world
  have hchanged : changed = true := hflag.mpr ⟨"activityId", by decide +kernel, by decide +kernel⟩
  rw [hchanged] at hfetch
  obtain ⟨st'', u, hpop, -, hvalues, -⟩ :=
    pop_fetched_restores_stack owns_shopProjection hreports (failingSections_nests _) hfetch
  exact ⟨(st', t), (st'', u), hfetch, hpop, hvalues⟩

/-- A fetch and a pop take an activity out of the store that was there before. -/
theorem pop_fetched_loses_left_over :
    (shopProjection.fetch.outcome (.empty, leftOverSetup.world)).toOption = some true ∧
      World.stored leftOverSetup.backing leftOverSetup.world "activityId" = some "left over" ∧
      World.stored leftOverSetup.backing
        (shopProjection.pop.leaves (shopProjection.fetch.leaves (.empty, leftOverSetup.world))).2
        "activityId" = none := by
  decide +kernel

end Projection

end LogContext
