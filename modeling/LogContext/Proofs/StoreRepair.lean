import LogContext.Proofs.AlikeProjections
import LogContext.Proofs.FetchedSection

namespace LogContext

open SectionStack

namespace Work

variable {ε σ α : Type}

/-- The same work, with a flag that is raised when it fails. -/
def watched (work : Work ε σ α) : Work ε (Bool × σ) α := fun s =>
  match work s.2 with
  | .ok a t => .ok a (s.1, t)
  | .error e t => .error e (true, t)

theorem ends_watched {work : Work ε σ α} {s : Bool × σ} {post : Except ε α → Bool × σ → Prop} :
    work.watched.Ends s post ↔ work.Ends s.2 fun r t => post r (s.1 || !r.isOk, t) := by
  unfold Ends watched
  cases work s.2 with
  | ok a t => simp only [Except.isOk, Except.toBool, Bool.not_true, Bool.or_false]
  | error e t => simp only [Except.isOk, Except.toBool, Bool.not_false, Bool.or_true]

theorem watched_matches (work : Work ε σ α) :
    Matches (fun (s : Bool × σ) t => s.2 = t) work.watched work := by
  intro s t hst
  subst hst
  exact ends_watched.mpr (ends_iff.mpr (ends_iff.mpr ⟨rfl, rfl⟩))

end Work

namespace Projection

variable {ε σ : Type} {p : Projection ε σ} {stored : σ → Snapshot}

/-- The same projection, with a flag that is raised when a call of the store fails. -/
def watched (p : Projection ε σ) : Projection ε (Bool × σ) where
  config := p.config
  lookUp := fun key => (p.lookUp key).watched
  put := fun key value => (p.put key value).watched
  remove := fun key => (p.remove key).watched
  application := p.application.beside
  report := fun message sections => (p.report message sections).beside

theorem write_watched (p : Projection ε σ) (key : String) (value : Option String) :
    p.watched.write key value = (p.write key value).watched := by
  cases value <;> rfl

/-- A projection does not notice that it is watched. -/
theorem watched_alike (p : Projection ε σ) :
    Alike (fun (s : Bool × σ) t => s.2 = t) p.watched p where
  config := rfl
  lookUp := fun key _ => Work.watched_matches (p.lookUp key)
  put := fun key value => Work.watched_matches (p.put key value)
  remove := fun key => Work.watched_matches (p.remove key)
  application := Work.beside_matches p.application
  report := fun message sections => Work.beside_matches (p.report message sections)

/-- A write of the store does what it should for its key and nothing else, or it fails and does
nothing. The resolver of the application and the reports do not write to the store. -/
structure Effective (p : Projection ε σ) (stored : σ → Snapshot) : Prop where
  write : ∀ key value s, (p.write key value).Ends s fun r t =>
    stored t = if r.isOk then Function.update (stored s) key value else stored s
  application : ∀ s, stored (p.application.leaves s) = stored s
  report : ∀ message sections, LeavesStore stored (p.report message sections)

/-- Something is tracked, and a call of the store has failed or the store agrees with the stack on
these names. -/
def MirrorsUnlessFailed (names : String → Prop) (stored : σ → Snapshot)
    (s : SectionStack × (Bool × σ)) : Prop :=
  s.1.hasTracked = true ∧ (s.2.1 = true ∨ Mirrors names (fun t => stored t.2) s)

theorem keeps_mirrorsUnlessFailed {α : Type} {work : Work ε σ α}
    (h : ∀ s, stored (work.leaves s) = stored s) (names : String → Prop) (st : SectionStack) :
    (work.beside : Work ε (Bool × σ) α).Keeps fun s => MirrorsUnlessFailed names stored (st, s) := by
  intro s hs
  refine Work.ends_beside.mpr (Work.ends_leaves
    (p := fun t => MirrorsUnlessFailed names stored (st, (s.1, t))) |>.mpr ?_)
  refine ⟨hs.1, hs.2.imp_right fun hm name hn => ?_⟩
  rw [← hm name hn]
  exact congrFun (h s.2) name

/-- Of a watched projection either the store follows the stack, or a call of the store has failed. -/
theorem Effective.settled_watched (effective : p.Effective stored) :
    p.watched.Settled (MirrorsUnlessFailed p.Active stored)
      (fun name => MirrorsUnlessFailed (fun other => p.Active other ∧ other ≠ name) stored) where
  invariant := invariant_hasTracked.and ((invariant_mirrors _ _).unless fun t : Bool × σ => t.1 = true)
  stir := fun name s hs => ⟨hs.1, hs.2.imp_right fun hm other ho => hm other ho.1⟩
  storeHook := by
    intro name st s hs
    obtain ⟨tracked, hs⟩ := hs
    rw [storeHook, Work.ends_beside, write_watched, Work.ends_watched]
    refine (effective.write name (st.latest name) s.2).imp ?_
    intro r t ht
    refine ⟨tracked, ?_⟩
    cases r with
    | error e => exact Or.inl (Bool.or_true s.1)
    | ok =>
      have hstored : stored t = Function.update (stored s.2) name (st.latest name) := ht
      refine hs.imp (fun hfailed => Bool.or_eq_true_iff.mpr (Or.inl hfailed)) fun hm other ho => ?_
      simp only [hstored, Function.update_apply]
      by_cases heq : other = name
      · rw [if_pos heq, heq]
      · rw [if_neg heq]
        exact hm other ⟨ho, heq⟩
  application := keeps_mirrorsUnlessFailed effective.application p.Active
  report := fun message sections =>
    keeps_mirrorsUnlessFailed (effective.report message sections) p.Active

/-- By induction on the keys: as long as no write fails, each is written, whatever the store held. -/
theorem Effective.writeLatest_watched (effective : p.Effective stored) (keys : List String)
    (st : SectionStack) (s : σ) :
    (p.watched.writeLatest keys).Ends (st, (false, s)) fun r t => t.1 = st ∧
      (t.2.1 = false → r = .ok () ∧ (∀ key ∈ keys, stored t.2.2 key = st.latest key) ∧
        ∀ key ∉ keys, stored t.2.2 key = stored s key) := by
  induction keys generalizing s with
  | nil => exact ⟨rfl, fun _ => ⟨rfl, (fun _ hkey => nomatch hkey), fun _ _ => rfl⟩⟩
  | cons first rest ih =>
    rw [Projection.writeLatest, Work.ends_bind, Work.ends_get]
    simp only
    rw [Work.ends_bind, storeHook, Work.ends_beside, write_watched, Work.ends_watched]
    refine (effective.write first (st.latest first) s).imp ?_
    intro r t ht
    cases r with
    | error e => exact ⟨rfl, fun hunfailing => by cases hunfailing⟩
    | ok =>
      have hstored : stored t = Function.update (stored s) first (st.latest first) := ht
      refine (ih t).imp ?_
      intro r u hu
      refine ⟨hu.1, fun hunfailing => ?_⟩
      obtain ⟨hr, hwritten, hleft⟩ := hu.2 hunfailing
      refine ⟨hr, fun key hkey => ?_, fun key hkey => ?_⟩
      · by_cases hrest : key ∈ rest
        · exact hwritten key hrest
        · have heq : key = first := (List.mem_cons.mp hkey).resolve_right hrest
          rw [hleft key hrest, hstored, heq, Function.update_self]
      · rw [List.mem_cons, not_or] at hkey
        rw [hleft key hkey.2, hstored, Function.update_of_ne hkey.1]

theorem Effective.sync_repairs (effective : p.Effective stored) {st : SectionStack}
    (tracked : st.hasTracked = true) {s : σ}
    (unfailing : (p.watched.sync.leaves (st, (false, s))).2.1 = false) :
    ∃ t, p.sync (st, s) = .ok () (st, t) ∧
      (∀ key ∈ p.config.propertyNames, stored t key = st.latest key) ∧
      ∀ key ∉ p.config.propertyNames, stored t key = stored s key := by
  have hsync : p.watched.sync.Ends (st, (false, s)) fun r t => t.1 = st ∧
      (t.2.1 = false → r = .ok () ∧
        (∀ key ∈ p.config.propertyNames, stored t.2.2 key = st.latest key) ∧
        ∀ key ∉ p.config.propertyNames, stored t.2.2 key = stored s key) := by
    rw [Projection.sync, Work.ends_bind, Work.ends_get]
    simp only [tracked, ↓reduceIte]
    exact effective.writeLatest_watched p.config.propertyNames st s
  obtain ⟨hstack, hresult⟩ := Work.ends_iff.mp hsync
  obtain ⟨hok, hwritten, hleft⟩ := hresult unfailing
  obtain ⟨houtcome, hleaves⟩ := p.watched_alike.sync.leaves (s := (st, (false, s))) (t := (st, s))
    ⟨rfl, rfl⟩
  refine ⟨(p.watched.sync.leaves (st, (false, s))).2.2, Work.eq_ok_of_ends ?_, hwritten, hleft⟩
  exact Work.ends_iff.mpr ⟨houtcome.trans hok, Prod.ext (hleaves.1.trans hstack) hleaves.2.symm⟩

/-- What agrees already is written once more, or not written. -/
theorem Effective.sync_agreed (effective : p.Effective stored) {st : SectionStack} {s : σ}
    (agrees : p.Agrees stored (st, s)) :
    p.sync.Ends (st, s) fun _ t => t.1 = st ∧ stored t.2 = stored s := by
  have hkeys : ∀ keys : List String, (∀ key ∈ keys, key ∈ p.config.propertyNames) →
      (p.writeLatest keys).Keeps fun t => t.1 = st ∧ stored t.2 = stored s := by
    intro keys hactive
    induction keys with
    | nil => exact Work.keeps_pure _
    | cons first rest ih =>
      intro t ht
      obtain ⟨hstack, hstored⟩ := ht
      have hfirst : (p.storeHook first (t.1.latest first)).Ends t fun _ u =>
          u.1 = st ∧ stored u.2 = stored s := by
        rw [storeHook, Work.ends_beside]
        refine (effective.write first (t.1.latest first) t.2).imp fun r u hu => ⟨hstack, ?_⟩
        rw [hu, hstored, hstack, ← agrees first (hactive first List.mem_cons_self),
          Function.update_eq_self, ite_self]
      rw [Projection.writeLatest, Work.ends_bind, Work.ends_get]
      exact hfirst.bind fun _ => ih fun key hkey => hactive key (List.mem_cons_of_mem _ hkey)
  rw [Projection.sync, Work.ends_bind, Work.ends_get]
  simp only
  split
  next => exact hkeys _ (fun _ hkey => hkey) (st, s) ⟨rfl, rfl⟩
  next => exact ⟨rfl, rfl⟩

/-- A run on a watched projection, with the flag down, from a state in which store and stack agree. -/
theorem Effective.run_agrees (effective : p.Effective stored) {st : SectionStack}
    (tracked : st.hasTracked = true) {s : σ} (agrees : p.Agrees stored (st, s))
    {program : ProjectionProgram ε (Bool × σ)}
    (uses : program.Uses (fun call => call ≠ .fetch ∧ call ≠ .clear) fun work =>
      ∃ other, LeavesStore stored other ∧ work = other.beside) :
    ∀ moment ∈ ((program.run p.watched).leaves ⟨⟨true, st, (false, s)⟩, []⟩).passed,
      moment.shared.1 = false → p.Agrees stored (moment.stack, moment.shared.2) := by
  have hsettled := effective.settled_watched
  have hkeeps : (program.run p.watched).Keeps (ProjectionProgram.CalmThroughout fun moment =>
      MirrorsUnlessFailed p.Active stored (moment.stack, moment.shared)) := by
    refine ProjectionProgram.run_keeps (fun call hcall moment hm => ?_)
      (fun work hwork moment hm => ?_) uses
    · cases call with
      | push view => exact Work.ends_map.mpr (hsettled.push view hm.1 hm)
      | pop => exact Work.ends_map.mpr (hsettled.pop _ hm)
      | sync => exact Work.ends_map.mpr (hsettled.sync _ hm)
      | fetch => exact absurd rfl hcall.1
      | clear => exact absurd rfl hcall.2
    · obtain ⟨other, hother, rfl⟩ := hwork
      exact keeps_mirrorsUnlessFailed hother p.Active moment.stack moment.shared hm
  have hstart : ProjectionProgram.CalmThroughout (fun moment =>
      MirrorsUnlessFailed p.Active stored (moment.stack, moment.shared))
      ⟨⟨true, st, (false, s)⟩, []⟩ :=
    ⟨⟨tracked, Or.inr agrees⟩, fun _ hm => nomatch hm⟩
  intro moment hm hunfailing
  refine ((hkeeps.leaves hstart).2 moment hm).2.resolve_left fun hfailed => ?_
  rw [hunfailing] at hfailed
  cases hfailed

/-- Whatever frames and sections the stack has, and whatever was written to the store: after a sync
without a failing call of the store the store agrees with the stack on the active keys. All else is as
it was. A second sync changes nothing, and pushes, pops and sections, around work that leaves the store
alone, keep the agreement for as long as no call of the store fails. -/
theorem sync_repairs_store (effective : p.Effective stored) {st : SectionStack}
    (tracked : st.hasTracked = true) {s : σ}
    (unfailing : (p.watched.sync.leaves (st, (false, s))).2.1 = false) :
    ∃ t, p.sync (st, s) = .ok () (st, t) ∧
      (∀ key ∈ p.config.propertyNames, stored t key = st.latest key) ∧
      (∀ key ∉ p.config.propertyNames, stored t key = stored s key) ∧
      (p.sync.Ends (st, t) fun _ u => u.1 = st ∧ stored u.2 = stored t) ∧
      ∀ program : ProjectionProgram ε (Bool × σ),
        program.Uses (fun call => call ≠ .fetch ∧ call ≠ .clear) (fun work =>
          ∃ other, LeavesStore stored other ∧ work = other.beside) →
        ∀ moment ∈ ((program.run p.watched).leaves ⟨⟨true, st, (false, t)⟩, []⟩).passed,
          moment.shared.1 = false → ∀ key ∈ p.config.propertyNames,
            stored moment.shared.2 key = moment.stack.latest key := by
  obtain ⟨t, hsync, hwritten, hleft⟩ := effective.sync_repairs tracked unfailing
  exact ⟨t, hsync, hwritten, hleft, effective.sync_agreed hwritten,
    fun program uses => effective.run_agrees tracked hwritten uses⟩

end Projection

namespace World

/-- The call is traced, and refused or not before it takes effect. -/
theorem ends_put (backing : Backing) (key value : String) (w : World) :
    (put backing key value).Ends w fun r t => stored backing t =
      if r.isOk then Function.update (stored backing w) key (some value) else stored backing w := by
  cases backing with
  | contextual name => exact stored_store _ key value w
  | recording refused =>
    simp only [put, note, refuse, Work.ends_bind, Work.ends_modify]
    split
    next => exact rfl
    next => exact stored_store _ key value _

theorem ends_remove (backing : Backing) (key : String) (w : World) :
    (remove backing key).Ends w fun r t => stored backing t =
      if r.isOk then Function.update (stored backing w) key none else stored backing w := by
  cases backing with
  | contextual name => exact stored_discard _ key w
  | recording refused =>
    simp only [remove, note, refuse, Work.ends_bind, Work.ends_modify]
    split
    next => exact rfl
    next => exact stored_discard _ key _

end World

open World

/-- Every store of a session is effective, also one that refuses calls. -/
theorem Setup.effective_projection (setup : Setup) (index : Nat) (p : ProjectionSetup) :
    (setup.projection index p).Effective (stored setup.backing) where
  write := by
    intro key value w
    cases value with
    | none => exact ends_remove setup.backing key w
    | some value => exact ends_put setup.backing key value w
  application := fun w => (keeps_stored_resolve (stored setup.backing w) index p.resolver).leaves rfl
  report := fun message sections w =>
    ((unlogged_stored _).report setup index p message sections).leaves (s := w) rfl

/-- A store that refuses one call. -/
def brittleSetup : Setup where
  backing := .recording [(.put, "processInstanceId")]
  initial := [("user", "u")]
  projections := []
  clock := 0
  clockStep := 1
  sink := .discard

def brittleProjection : Projection Failure World :=
  brittleSetup.projection 0 ⟨.standard, .ambient, none⟩

/-- A push that fails leaves its section open, a pop that fails leaves a frame without a section, and
somebody else writes to the store. -/
def damagingWork : Work Failure (SectionStack × World) Unit := do
  let _ ← (brittleProjection.push
    (.ofExecution { activityId := some "a", processInstanceId := some "i" })).attempt
  let _ ← brittleProjection.push (.ofExecution { activityId := some "b", tenantId := some "shop" })
  let _ ← brittleProjection.pop.attempt
  let _ ← brittleProjection.push (.ofExecution { activityId := some "c", tenantId := some "mall" })
  (World.put brittleSetup.backing "tenantId" "other").beside

/-- A section whose body pops more than there is to pop, and fails. -/
def laterProgram : ProjectionProgram Failure (Bool × World) :=
  .rescue (fun _ => true)
    (.inSection (.ofExecution { activityId := some "d" })
      (.call .pop <| .call (.push (.ofExecution { activityId := some "e" })) <|
        .other (Work.beside (throw (.raised "no money"))) .done) .done)
    (fun _ => .done) <|
  .call .sync .done

theorem uses_laterProgram : laterProgram.Uses (fun call => call ≠ .fetch ∧ call ≠ .clear) fun work =>
    ∃ other, Projection.LeavesStore (stored brittleSetup.backing) other ∧ work = other.beside := by
  have hthrow : ∃ other : Work Failure World Unit,
      Projection.LeavesStore (stored brittleSetup.backing) other ∧
      (Work.beside (throw (.raised "no money")) : Work Failure (Bool × World) Unit) =
        other.beside := ⟨throw (.raised "no money"), fun _ => rfl, rfl⟩
  simp [laterProgram, ProjectionProgram.Uses, hthrow]

theorem Projection.sync_repairs_store_damaged :
    let st := (damagingWork.leaves (.empty, brittleSetup.world)).1
    let w := (damagingWork.leaves (.empty, brittleSetup.world)).2
    st.openNames = [["activityId", "processInstanceId", "tenantId"],
        ["activityId", "processInstanceId"]] ∧
      st.depth "tenantId" = 2 ∧ st.latest "tenantId" = some "mall" ∧
      stored brittleSetup.backing w "tenantId" = some "other" ∧
      ∃ t, brittleProjection.sync (st, w) = .ok () (st, t) ∧
        (∀ key ∈ brittleProjection.config.propertyNames,
          stored brittleSetup.backing t key = st.latest key) ∧
        ∀ moment ∈ ((laterProgram.run brittleProjection.watched).leaves
            ⟨⟨true, st, (false, t)⟩, []⟩).passed,
          moment.shared.1 = false → ∀ key ∈ brittleProjection.config.propertyNames,
            stored brittleSetup.backing moment.shared.2 key = moment.stack.latest key := by
  intro st w
  have heffective : brittleProjection.Effective (stored brittleSetup.backing) :=
    brittleSetup.effective_projection 0 _
  have htracked : st.hasTracked = true := by decide +kernel
  have hunfailing : (brittleProjection.watched.sync.leaves (st, (false, w))).2.1 = false := by
    decide +kernel
  obtain ⟨t, hsync, hwritten, _, _, hlater⟩ := sync_repairs_store heffective htracked hunfailing
  exact ⟨by decide +kernel, by decide +kernel, by decide +kernel, by decide +kernel, t, hsync,
    hwritten, hlater laterProgram uses_laterProgram⟩

end LogContext
