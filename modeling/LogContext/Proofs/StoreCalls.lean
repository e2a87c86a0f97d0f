import LogContext.Proofs.ActiveKeys
import LogContext.Proofs.FetchedSection

namespace LogContext

open SectionStack

/-- Calls of a store and the keys they were made for, in order. -/
abbrev StoreRecord := List (StoreCall × String)

def StoreRecord.note {ε σ : Type} (call : StoreCall) (key : String) :
    Work ε (StoreRecord × σ) Unit :=
  modify fun s => (s.1 ++ [(call, key)], s.2)

namespace Projection

variable {ε σ : Type} {p : Projection ε σ} {stored : σ → Snapshot}

/-- The same projection, with a record of its calls of the store. A call is recorded before it is
made, so one that fails is recorded, too. -/
def recorded (p : Projection ε σ) : Projection ε (StoreRecord × σ) where
  config := p.config
  lookUp := fun key => do
    StoreRecord.note .get key
    (p.lookUp key).beside
  put := fun key value => do
    StoreRecord.note .put key
    (p.put key value).beside
  remove := fun key => do
    StoreRecord.note .remove key
    (p.remove key).beside
  application := p.application.beside
  report := fun message sections => (p.report message sections).beside

/-- A call of the store for a key changes at most the entry of this key, whether it fails or not;
nothing else that the projection does changes an entry. -/
structure StoresByKey (p : Projection ε σ) (stored : σ → Snapshot) : Prop where
  lookUp : ∀ key s, stored ((p.lookUp key).leaves s) = stored s
  put : ∀ key value s, ∀ other ≠ key, stored ((p.put key value).leaves s) other = stored s other
  remove : ∀ key s, ∀ other ≠ key, stored ((p.remove key).leaves s) other = stored s other
  application : ∀ s, stored (p.application.leaves s) = stored s
  report : ∀ message sections, LeavesStore stored (p.report message sections)

/-- Entries under keys that are not active are what they were. -/
def Spares (p : Projection ε σ) (stored : σ → Snapshot) (m : Snapshot) (s : σ) : Prop :=
  ∀ key ∉ p.config.propertyNames, stored s key = m key

theorem StoresByKey.harmless (byKey : p.StoresByKey stored) (m : Snapshot) :
    p.Harmless (p.Spares stored m) := by
  have hkeeps : ∀ {α : Type} (work : Work ε σ α),
      (∀ s, ∀ key ∉ p.config.propertyNames, stored (work.leaves s) key = stored s key) →
      work.Keeps (p.Spares stored m) := by
    intro α work hwork s hs
    refine Work.ends_leaves.mpr fun key hkey => ?_
    rw [hwork s key hkey]
    exact hs key hkey
  have hne : ∀ key ∈ p.config.propertyNames, ∀ other ∉ p.config.propertyNames, other ≠ key :=
    fun key hkey other ho eq => ho (eq ▸ hkey)
  constructor
  case lookUp =>
    intro key _
    exact hkeeps _ fun s other _ => congrFun (byKey.lookUp key s) other
  case put =>
    intro key hkey value
    exact hkeeps _ fun s other ho => byKey.put key value s other (hne key hkey other ho)
  case remove =>
    intro key hkey
    exact hkeeps _ fun s other ho => byKey.remove key s other (hne key hkey other ho)
  case application => exact hkeeps _ fun s other _ => congrFun (byKey.application s) other
  case report =>
    intro message sections
    exact hkeeps _ fun s other _ => congrFun (byKey.report message sections s) other

/-- All recorded calls are for active keys. -/
def Keyed (p : Projection ε σ) (record : StoreRecord) : Prop :=
  ∀ entry ∈ record, entry.2 ∈ p.config.propertyNames

theorem Keyed.note {record : StoreRecord} (h : p.Keyed record) (call : StoreCall) {key : String}
    (hkey : key ∈ p.config.propertyNames) : p.Keyed (record ++ [(call, key)]) := by
  intro entry he
  rcases List.mem_append.mp he with he | he
  · exact h entry he
  · exact List.mem_singleton.mp he ▸ hkey

theorem harmless_recorded (p : Projection ε σ) : p.recorded.Harmless fun s => p.Keyed s.1 := by
  have hnote : ∀ call, ∀ key ∈ p.config.propertyNames,
      (StoreRecord.note (ε := ε) call key).Keeps fun s : StoreRecord × σ => p.Keyed s.1 :=
    fun call key hkey => Work.keeps_modify fun s hs => hs.note call hkey
  constructor
  case lookUp =>
    intro key hkey
    exact (hnote .get key hkey).bind fun _ => Work.keeps_beside _
  case put =>
    intro key hkey value
    exact (hnote .put key hkey).bind fun _ => Work.keeps_beside _
  case remove =>
    intro key hkey
    exact (hnote .remove key hkey).bind fun _ => Work.keeps_beside _
  case application => exact Work.keeps_beside _
  case report =>
    intro message sections
    exact Work.keeps_beside _

theorem clear_of_not_isEnabled (disabled : p.config.isEnabled ≠ true) : p.clear = pure () := by
  have hnone : p.config.propertyNames = [] :=
    List.eq_nil_iff_forall_not_mem.mpr (not_mem_of_not_isEnabled disabled)
  rw [Projection.clear, hnone, if_neg disabled]
  rfl

theorem call_empty_of_not_isEnabled (disabled : p.config.isEnabled ≠ true)
    (c : ProjectionCall ε) (s : σ) : (c.run p).Ends (.empty, s) fun _ t => t.1 = .empty := by
  cases c with
  | push view =>
    rw [ProjectionCall.run, push_of_not_isEnabled disabled]
    exact rfl
  | pop => exact Work.ends_map.mpr ((Work.ends_of_ok (pop_empty p s)).mpr rfl)
  | fetch =>
    rw [ProjectionCall.run, fetch_of_not_isEnabled disabled]
    exact rfl
  | sync => exact Work.ends_map.mpr ((Work.ends_of_ok (sync_empty p s)).mpr rfl)
  | clear =>
    rw [ProjectionCall.run, clear_of_not_isEnabled disabled]
    exact rfl

end Projection

namespace ProjectionProgram

variable {ε σ : Type}

/-- The same program for a projection with a record; other work does not touch the record. -/
def recorded : ProjectionProgram ε σ → ProjectionProgram ε (StoreRecord × σ)
  | .done => .done
  | .call c rest => .call c rest.recorded
  | .other work rest => .other work.beside rest.recorded
  | .inSection view body rest => .inSection view body.recorded rest.recorded
  | .rescue handles body handler rest =>
    .rescue handles body.recorded (fun e => (handler e).recorded) rest.recorded

theorem Uses.recorded {calls : ProjectionCall ε → Prop} {others : Work ε σ Unit → Prop}
    {program : ProjectionProgram ε σ} (uses : program.Uses calls others) :
    program.recorded.Uses calls fun work => ∃ other, others other ∧ work = other.beside := by
  induction program with
  | done => trivial
  | call c rest ih => exact ⟨uses.1, ih uses.2⟩
  | other work rest ih => exact ⟨⟨work, uses.1, rfl⟩, ih uses.2⟩
  | inSection view body rest ihb ih =>
    obtain ⟨hpush, hpop, hbody, hrest⟩ := uses
    exact ⟨hpush, hpop, ihb hbody, ih hrest⟩
  | rescue handles body handler rest ihb ihh ih =>
    obtain ⟨hbody, hhandler, hrest⟩ := uses
    exact ⟨ihb hbody, fun e => ihh e (hhandler e), ih hrest⟩

variable {p : Projection ε σ} {K : σ → Prop}

/-- What neither the projection nor anybody else disturbs holds throughout a run, and no section lists
anything but active keys. -/
theorem run_tidy (harmless : p.Harmless K) {others : Work ε σ Unit → Prop}
    (hothers : ∀ work, others work → work.Keeps K) {program : ProjectionProgram ε σ}
    (uses : program.Uses (fun _ => True) others) {s : σ} (hs : K s) :
    CalmThroughout (fun moment => p.Tidy K (moment.stack, moment.shared))
      ((program.run p).leaves (.start s)) := by
  refine (run_keeps (fun call _ moment hm => ?_) (fun work hwork moment hm => ?_) uses).leaves
    (calmThroughout_start ⟨listsOnly_empty, hs⟩)
  · exact harmless.call call _ hm
  · obtain ⟨hlists, hk⟩ := hm
    exact (hothers work hwork moment.shared hk).imp fun _ _ ht => ⟨hlists, ht⟩

theorem keyed_record (program : ProjectionProgram ε σ) (p : Projection ε σ) (s : σ) :
    p.Keyed ((program.recorded.run p.recorded).leaves (.start ([], s))).now.shared.1 := by
  have hothers : ∀ work : Work ε (StoreRecord × σ) Unit,
      (∃ other : Work ε σ Unit, True ∧ work = other.beside) → work.Keeps fun s => p.Keyed s.1 := by
    rintro _ ⟨other, _, rfl⟩
    exact Work.keeps_beside other
  have hstart : p.Keyed [] := fun _ he => nomatch he
  exact (run_tidy p.harmless_recorded hothers program.uses_all.recorded (s := ([], s)) hstart).1.2

theorem Uses.spares_throughout {stored : σ → Snapshot} {program : ProjectionProgram ε σ}
    (uses : program.Uses (fun _ => True) (Projection.LeavesStore stored))
    (byKey : p.StoresByKey stored) (s : σ) :
    ∀ moment ∈ ((program.run p).leaves (.start s)).passed,
      p.Spares stored (stored s) moment.shared := by
  have hothers : ∀ work : Work ε σ Unit, Projection.LeavesStore stored work →
      work.Keeps (p.Spares stored (stored s)) := by
    intro work hwork t ht
    refine Work.ends_leaves.mpr fun key hkey => ?_
    rw [hwork]
    exact ht key hkey
  have htidy := run_tidy (byKey.harmless (stored s)) hothers uses fun _ _ => rfl
  exact fun moment hm => (htidy.2 moment hm).2

theorem stack_empty_throughout (program : ProjectionProgram ε σ)
    (disabled : p.config.isEnabled ≠ true) (s : σ) :
    ∀ moment ∈ ((program.run p).leaves (.start s)).passed, moment.stack = .empty := by
  have hcall : ∀ call : ProjectionCall ε, ∀ moment : ProjectionMoment σ, moment.stack = .empty →
      (call.run p).Ends (moment.stack, moment.shared) fun _ t => t.1 = .empty := by
    intro call moment hm
    rw [hm]
    exact Projection.call_empty_of_not_isEnabled disabled call moment.shared
  have hkeeps := run_keeps (fun call _ => hcall call) (fun _ _ _ hm => Work.ends_leaves.mpr hm)
    program.uses_all
  exact (hkeeps.leaves (calmThroughout_start rfl)).2

end ProjectionProgram

namespace Projection

variable {ε σ : Type}

/-- Whatever is asked of a projection, and whatever fails meanwhile: it calls the store for its
active keys only. So all other entries stay as they are, unless somebody else changes them. Without an
active key there is no call at all, and no section either. -/
theorem store_calls_use_active_keys (p : Projection ε σ) (program : ProjectionProgram ε σ) (s : σ) :
    (∀ entry ∈ ((program.recorded.run p.recorded).leaves (.start ([], s))).now.shared.1,
      entry.2 ∈ p.config.propertyNames) ∧
    (∀ stored : σ → Snapshot, p.StoresByKey stored →
      program.Uses (fun _ => True) (LeavesStore stored) →
      ∀ moment ∈ ((program.run p).leaves (.start s)).passed,
        ∀ key ∉ p.config.propertyNames, stored moment.shared key = stored s key) ∧
    (p.config.propertyNames = [] →
      ((program.recorded.run p.recorded).leaves (.start ([], s))).now.shared.1 = [] ∧
      (∀ view, p.push view = pure false) ∧ p.fetch = pure false ∧
      ∀ moment ∈ ((program.run p).leaves (.start s)).passed, moment.stack.sectionCount = 0) := by
  refine ⟨program.keyed_record p s, fun stored byKey uses => uses.spares_throughout byKey s,
    fun hnone => ?_⟩
  have hdisabled : p.config.isEnabled ≠ true := by simp [Config.isEnabled, hnone]
  have hrecord : ((program.recorded.run p.recorded).leaves (.start ([], s))).now.shared.1 = [] := by
    refine List.eq_nil_iff_forall_not_mem.mpr fun entry he => ?_
    have hkey := program.keyed_record p s entry he
    rw [hnone] at hkey
    cases hkey
  refine ⟨hrecord, push_of_not_isEnabled hdisabled, fetch_of_not_isEnabled hdisabled, ?_⟩
  intro moment hm
  rw [program.stack_empty_throughout hdisabled s moment hm]
  rfl

end Projection

namespace World

variable {backing : Backing}

theorem keeps_stored_lookUp (m : Snapshot) (key : String) :
    (lookUp backing key).Keeps fun w => stored backing w = m := by
  cases backing with
  | recording refused => exact keeps_lookUp ((unlogged_stored m).note _) fun _ _ hw => hw
  | contextual store =>
    refine Work.keeps_modifyGet fun w hw => ?_
    simp only [stored, entries, ContextSpace.entries_get]
    exact hw

variable {key other : String} {entry : Option String}

theorem unlogged_entry : Unlogged fun w => stored backing w other = entry :=
  fun _ _ _ _ _ h => h

theorem keeps_entry_put (ho : other ≠ key) (value : String) :
    (put backing key value).Keeps fun w => stored backing w other = entry := by
  refine keeps_put (unlogged_entry.note _) fun w hw => ?_
  rw [stored_store, Function.update_of_ne ho, hw]

theorem keeps_entry_remove (ho : other ≠ key) :
    (remove backing key).Keeps fun w => stored backing w other = entry := by
  refine keeps_remove (unlogged_entry.note _) fun w hw => ?_
  rw [stored_discard, Function.update_of_ne ho, hw]

end World

open World

/-- A store that refuses calls still changes no entry but the one it is called for. -/
theorem Setup.storesByKey_projection (setup : Setup) (index : Nat) (p : ProjectionSetup) :
    (setup.projection index p).StoresByKey (stored setup.backing) where
  lookUp := fun key w => (keeps_stored_lookUp (stored setup.backing w) key).leaves rfl
  put := fun _ value w _ ho => (keeps_entry_put ho value).leaves (s := w) rfl
  remove := fun _ w _ ho => (keeps_entry_remove ho).leaves (s := w) rfl
  application := fun w => (keeps_stored_resolve (stored setup.backing w) index p.resolver).leaves rfl
  report := fun message sections w =>
    ((unlogged_stored _).report setup index p message sections).leaves (s := w) rfl

/-- A store that refuses two calls, and holds something under a key that no role has. -/
def refusingSetup : Setup where
  backing := .recording [(.get, "processInstanceId"), (.put, "tenantId")]
  initial := [("user", "u")]
  projections := []
  clock := 0
  clockStep := 1
  sink := .discard

def refusedProjection : Projection Failure World :=
  refusingSetup.projection 0 ⟨.standard, .ambient, none⟩

/-- A fetch that fails, a push that fails after its first change, and a pop of what it has opened. -/
def refusedProgram : ProjectionProgram Failure World :=
  .rescue (fun _ => true) (.call .fetch .done) (fun _ => .done) <|
  .rescue (fun _ => true)
    (.inSection (.ofExecution { activityId := some "pay", tenantId := some "shop" }) .done .done)
    (fun _ => .call .pop .done) <|
  .call .sync <| .call .clear .done

theorem Projection.store_calls_use_active_keys_refused :
    refusedProjection.StoresByKey (stored refusingSetup.backing) ∧
    refusedProgram.Uses (fun _ => True) (LeavesStore (stored refusingSetup.backing)) ∧
    (∀ entry ∈ ((refusedProgram.recorded.run refusedProjection.recorded).leaves
        (.start ([], refusingSetup.world))).now.shared.1,
      entry.2 ∈ refusedProjection.config.propertyNames) ∧
    ((refusedProgram.run refusedProjection).leaves
      (.start refusingSetup.world)).passed.map (·.stack.sectionCount) = [0, 1, 0, 0, 0] ∧
    ∀ moment ∈ ((refusedProgram.run refusedProjection).leaves (.start refusingSetup.world)).passed,
      stored refusingSetup.backing moment.shared "user" = some "u" := by
  have hstores : refusedProjection.StoresByKey (stored refusingSetup.backing) :=
    refusingSetup.storesByKey_projection 0 _
  have huses : refusedProgram.Uses (fun _ => True) (LeavesStore (stored refusingSetup.backing)) := by
    simp [refusedProgram, ProjectionProgram.Uses]
  have hother : "user" ∉ refusedProjection.config.propertyNames := by decide +kernel
  have huser : stored refusingSetup.backing refusingSetup.world "user" = some "u" := by
    decide +kernel
  obtain ⟨hkeys, hentries, -⟩ :=
    store_calls_use_active_keys refusedProjection refusedProgram refusingSetup.world
  refine ⟨hstores, huses, hkeys, by decide +kernel, fun moment hm => ?_⟩
  rw [hentries _ hstores huses moment hm "user" hother, huser]

end LogContext
