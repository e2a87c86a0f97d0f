import LogContext.Proofs.CanonicalFrames
import LogContext.Proofs.FetchedSection
import LogContext.Proofs.ToldChanges
import LogContext.Proofs.ValueChanges

namespace LogContext

namespace StoreUse

/-- What a store holds after a use. -/
def after (m : Snapshot) : StoreUse → Snapshot
  | .get _ => m
  | .put key value => Function.update m key (some value)
  | .remove key => Function.update m key none

/-- A put of a value that is not there yet, or a removal of a key that is there. -/
def Changes (m : Snapshot) : StoreUse → Prop
  | .get _ => False
  | .put key value => m key ≠ some value
  | .remove key => m key ≠ none

/-- Of these uses, one after the other, each changes what the store holds. -/
def EachChanges : Snapshot → List StoreUse → Prop
  | _, [] => True
  | m, use :: rest => use.Changes m ∧ EachChanges (use.after m) rest

theorem changes_write {m : Snapshot} {key : String} {value : Option String} :
    (write (key, value)).Changes m ↔ m key ≠ value := by
  cases value <;> rfl

theorem after_write (m : Snapshot) (change : String × Option String) :
    (write change).after m = Function.update m change.1 change.2 := by
  obtain ⟨key, value⟩ := change
  cases value <;> rfl

theorem foldl_after_write (m : Snapshot) (changes : List (String × Option String)) :
    (changes.map write).foldl after m =
      changes.foldl (fun m change => Function.update m change.1 change.2) m := by
  rw [List.foldl_map]
  simp only [after_write]

end StoreUse

namespace SectionStack

theorem Stepwise.consider {draft : Option Nat × SectionStack} (h : draft.2.Stepwise)
    (offer : Offer) : (consider draft offer).2.Stepwise := by
  cases hc : draft.2.changed? offer with
  | none =>
    rw [consider_of_none hc]
    exact h
  | some name =>
    rw [consider_of_some hc]
    exact h.change draft.1 (changed?_eq_some_iff.mp hc).2.2

theorem Stepwise.offered {st : SectionStack} (h : st.Stepwise) (offers : List Offer) :
    (st.offered offers).2.Stepwise := by
  have hfoldl : ∀ draft : Option Nat × SectionStack, draft.2.Stepwise →
      (offers.foldl SectionStack.consider draft).2.Stepwise := by
    induction offers with
    | nil => exact fun _ hd => hd
    | cons offer rest ih => exact fun draft hd => ih _ (hd.consider offer)
  exact hfoldl (none, st) h

theorem Stepwise.dropFrames {st : SectionStack} (h : st.Stepwise) (names : List String) :
    (st.dropFrames names).Stepwise := by
  unfold SectionStack.dropFrames
  induction names generalizing st with
  | nil => exact h
  | cons name rest ih => exact ih (h.dropFrame name)

theorem Stepwise.popped {st : SectionStack} (h : st.Stepwise) : st.popped.Stepwise := by
  rw [SectionStack.popped]
  cases hc : st.closeSection? with
  | none => exact h
  | some pair => exact (h.close hc).dropFrames pair.1.names

/-- A frame that is taken off gives a property another value. -/
theorem Stepwise.latest_dropFrame_ne {st : SectionStack} (h : st.Stepwise) {name : String}
    (framed : 0 < st.depth name) : st.latest name ≠ (st.dropFrame name).latest name := by
  have hframes := h name
  rw [latest, top?, latest, top?, frames_dropFrame, if_pos rfl]
  rw [depth] at framed
  cases hf : st.frames name with
  | nil => simp [hf] at framed
  | cons frame rest =>
    rw [hf] at hframes
    exact hframes.1

/-- A section that all frames are covered by lists no property more often than it has frames. -/
theorem Covered.count_le_depth {st below : SectionStack} {closed : Section} (h : st.Covered)
    (hclose : st.closeSection? = some (closed, below)) (name : String) :
    closed.names.count name ≤ below.depth name := by
  rw [depth_of_closeSection? hclose, h name, listings_of_closeSection? hclose]
  exact Nat.le_add_right _ _

variable {active : String → Prop}

/-- On a store that agrees with the stack, all that a push writes changes the store. -/
theorem eachChanges_changes {offers : List Offer} (hoffers : AllActive active offers)
    (draft : Option Nat × SectionStack) {m : Snapshot}
    (agrees : ∀ name, active name → m name = draft.2.latest name) :
    StoreUse.EachChanges m ((changes draft offers).map .write) := by
  induction offers generalizing draft m with
  | nil => exact trivial
  | cons offer rest ih =>
    have hrest : AllActive active rest := fun other ho => hoffers other (List.mem_cons_of_mem _ ho)
    rw [changes, change?]
    cases hc : draft.2.changed? offer with
    | none => exact ih hrest _ (by rw [consider_of_none hc]; exact agrees)
    | some name =>
      obtain ⟨hname, -, hne⟩ := changed?_eq_some_iff.mp hc
      have hactive : active name := hoffers offer List.mem_cons_self name hname
      refine ⟨StoreUse.changes_write.mpr (by rw [agrees name hactive]; exact hne),
        ih hrest _ fun other ho => ?_⟩
      rw [StoreUse.after_write, Function.update_apply, consider_of_some hc, latest_change,
        agrees other ho]

/-- On a store that agrees with a stepwise stack, each frame that is taken off changes the store. -/
theorem eachChanges_restored {names : List String} (hnames : ∀ name ∈ names, active name)
    {st : SectionStack} (stepwise : st.Stepwise)
    (framed : ∀ name, names.count name ≤ st.depth name) {m : Snapshot}
    (agrees : ∀ name, active name → m name = st.latest name) :
    StoreUse.EachChanges m ((st.restored names).map .write) := by
  induction names generalizing st m with
  | nil => exact trivial
  | cons name rest ih =>
    have hpos : 0 < st.depth name := by
      have hcount := framed name
      rw [List.count_cons_self] at hcount
      omega
    refine ⟨StoreUse.changes_write.mpr ?_, ih ?_ (stepwise.dropFrame name) ?_ ?_⟩
    · rw [agrees name (hnames name List.mem_cons_self)]
      exact stepwise.latest_dropFrame_ne hpos
    · exact fun other ho => hnames other (List.mem_cons_of_mem _ ho)
    · intro other
      have hcount := framed other
      rw [depth_dropFrame]
      by_cases heq : other = name
      · subst heq
        rw [List.count_cons_self] at hcount
        rw [if_pos rfl]
        omega
      · rw [List.count_cons_of_ne (Ne.symm heq)] at hcount
        rw [if_neg heq]
        exact hcount
    · intro other ho
      rw [StoreUse.after_write, Function.update_apply]
      split
      next heq => rw [heq]
      next hne => rw [latest_dropFrame_of_ne st hne, agrees other ho]

theorem eachChanges_returned {st : SectionStack} (listed : ListsOnly active st)
    (stepwise : st.Stepwise) (covered : st.Covered) {m : Snapshot}
    (agrees : ∀ name, active name → m name = st.latest name) :
    StoreUse.EachChanges m (st.returned.map .write) := by
  rw [returned]
  cases hc : st.closeSection? with
  | none => exact trivial
  | some pair =>
    refine eachChanges_restored (listed.close hc).1 (stepwise.close hc)
      (fun name => covered.count_le_depth hc name) fun name hname => ?_
    rw [latest_of_closeSection? hc]
    exact agrees name hname

end SectionStack

open SectionStack

/-- The uses of the store by which a push clears it before the first value is tracked. -/
def Config.clearingUses (config : Config) (st : SectionStack) : List StoreUse :=
  if st.hasTracked then [] else config.propertyNames.map .remove

theorem Config.map_write_clearing (config : Config) (st : SectionStack) :
    (if st.hasTracked then [] else config.clearing).map StoreUse.write = config.clearingUses st := by
  rw [clearingUses]
  split
  next => rfl
  next => exact List.map_map

namespace Projection

variable {ε σ : Type} {p : Projection ε σ} {stored : σ → Snapshot}

/-- Store and stack are in step: they agree once there is anything to agree on, and every frame is
listed by an open section, under an active key, and differs from the one below it. -/
structure InStep (p : Projection ε σ) (stored : σ → Snapshot) (moment : ProjectionMoment σ) :
    Prop where
  agrees : p.AgreesOnceBegun stored moment
  stepwise : moment.stack.Stepwise
  covered : moment.stack.Covered
  listed : ListsOnly p.Active moment.stack

theorem inStep_start (p : Projection ε σ) (stored : σ → Snapshot) (s : σ) :
    p.InStep stored ⟨false, .empty, s⟩ :=
  ⟨rfl, stepwise_empty, covered_empty, listsOnly_empty⟩

theorem Owns.call_inStep (owns : p.Owns stored) {call : ProjectionCall ε} (hcall : call ≠ .clear)
    (moment : ProjectionMoment σ) (h : p.InStep stored moment) :
    (call.run p).Ends (moment.stack, moment.shared) fun _ t =>
      p.InStep stored ⟨moment.begun || call.begins, t.1, t.2⟩ := by
  have hlisted := p.respects_true.harmless.call call (moment.stack, moment.shared) ⟨h.listed, trivial⟩
  have hstack := ends_call_quiet owns.quiet_storeHook call moment
  refine ((owns.call_agrees hcall moment h.agrees).and (hlisted.and hstack)).imp ?_
  rintro _ ⟨st, t⟩ ⟨hagrees, hlists, hst⟩
  have hframes : st.Stepwise ∧ st.Covered := by
    rcases hst with rfl | ⟨offers, -, rfl⟩ | rfl
    · exact ⟨h.stepwise, h.covered⟩
    · exact ⟨h.stepwise.offered offers, h.covered.offered offers⟩
    · exact ⟨h.stepwise.popped, h.covered.popped⟩
  exact ⟨hagrees, hframes.1, hframes.2, hlists.1⟩

theorem LeavesStore.keeps_inStep {work : Work ε σ Unit} (leaves : LeavesStore stored work)
    (moment : ProjectionMoment σ) (h : p.InStep stored moment) :
    work.Ends moment.shared fun _ t => p.InStep stored ⟨moment.begun, moment.stack, t⟩ := by
  refine Work.ends_leaves.mpr ⟨?_, h.stepwise, h.covered, h.listed⟩
  have hagrees := h.agrees
  unfold AgreesOnceBegun at hagrees ⊢
  split at hagrees
  next hb =>
    rw [if_pos hb]
    intro key hkey
    simp only [leaves]
    exact hagrees key hkey
  next hb =>
    rw [if_neg hb]
    exact hagrees

theorem Owns.run_inStep (owns : p.Owns stored) {program : ProjectionProgram ε σ}
    (uses : program.Uses (· ≠ .clear) (LeavesStore stored)) (s : σ) :
    ∀ moment ∈ program.moments p s, p.InStep stored moment := by
  have hkeeps : (program.run p).Keeps (ProjectionProgram.CalmThroughout (p.InStep stored)) :=
    ProjectionProgram.run_keeps (fun call hcall => owns.call_inStep hcall)
      (fun work hwork => LeavesStore.keeps_inStep hwork) uses
  exact ProjectionProgram.forall_moments hkeeps (p.inStep_start stored s)

/-- What a store in step holds after a push has cleared it, or need not do so. -/
theorem InStep.agrees_cleared {moment : ProjectionMoment σ} (h : p.InStep stored moment)
    {key : String} (hkey : p.Active key) :
    (p.config.clearingUses moment.stack).foldl StoreUse.after (stored moment.shared) key =
      moment.stack.latest key := by
  rw [← Config.map_write_clearing, StoreUse.foldl_after_write]
  by_cases htracked : moment.stack.hasTracked = true
  · have hagrees := h.agrees
    rw [AgreesOnceBegun] at hagrees
    rw [if_pos htracked]
    split at hagrees
    next => exact hagrees key hkey
    next =>
      rw [hagrees, hasTracked_empty] at htracked
      cases htracked
  · rw [if_neg htracked, Config.foldl_clearing, if_pos hkey,
      latest_of_not_hasTracked (by simpa using htracked)]

theorem InStep.eachChanges_returned {moment : ProjectionMoment σ} (h : p.InStep stored moment) :
    StoreUse.EachChanges (stored moment.shared) (moment.stack.returned.map .write) := by
  have hagrees := h.agrees
  rw [AgreesOnceBegun] at hagrees
  split at hagrees
  next => exact SectionStack.eachChanges_returned h.listed h.stepwise h.covered hagrees
  next =>
    rw [hagrees]
    exact trivial

/-- On a store that does not fail and that nobody else writes to, no write for a frame is in vain. In
every state that a program passes, and at its start: what a further push does to the store are the
removals by which it clears it, if no value was tracked before, and then writes of which each changes
what the store holds; and so does each write of a pop. -/
theorem frame_writes_change_store (owns : p.Owns stored) (program : ProjectionProgram ε σ)
    (uses : program.Uses (· ≠ .clear) (LeavesStore stored)) (s : σ) :
    ∀ moment ∈ (ProjectionRun.start s).now :: ((program.run p).leaves (.start s)).passed,
      (∀ view, (p.noted.push view).Ends (moment.stack, ([], moment.shared)) fun _ t =>
        ∃ writes, t.2.1 = p.config.clearingUses moment.stack ++ writes ∧
          StoreUse.EachChanges ((p.config.clearingUses moment.stack).foldl StoreUse.after
            (stored moment.shared)) writes ∧
          stored t.2.2 = t.2.1.foldl StoreUse.after (stored moment.shared)) ∧
      p.noted.pop.Ends (moment.stack, ([], moment.shared)) fun _ t =>
        StoreUse.EachChanges (stored moment.shared) t.2.1 ∧
          stored t.2.2 = t.2.1.foldl StoreUse.after (stored moment.shared) := by
  intro moment hm
  have hstep := owns.run_inStep uses s moment hm
  have hdriven := (owns.driven p.respects_true).noted
  constructor
  · intro view
    refine (hdriven.push view moment.stack trivial).imp ?_
    rintro _ t ⟨offers, hactive, -, -, hseen⟩
    rw [StoreUse.foldl_noteWrite, StoreUse.foldl_noteWrite] at hseen
    obtain ⟨huses, hstored⟩ := Prod.mk.inj hseen
    rw [List.nil_append, Config.map_write_clearing] at huses
    refine ⟨_, huses, ?_, ?_⟩
    · exact eachChanges_changes hactive (none, moment.stack) fun key hkey =>
        hstep.agrees_cleared hkey
    · rw [hstored, huses, List.foldl_append, ← Config.map_write_clearing, StoreUse.foldl_after_write,
        StoreUse.foldl_after_write]
  · by_cases henabled : p.config.isEnabled = true
    case neg =>
      have hpop : p.noted.pop = pure () := if_neg henabled
      rw [hpop]
      exact ⟨trivial, rfl⟩
    refine (hdriven.pop henabled moment.stack trivial).imp ?_
    rintro _ t ⟨-, hseen, -⟩
    rw [StoreUse.foldl_noteWrite] at hseen
    obtain ⟨huses, hstored⟩ := Prod.mk.inj hseen
    rw [huses, hstored, List.nil_append, StoreUse.foldl_after_write]
    exact ⟨hstep.eachChanges_returned, rfl⟩

end Projection

/-- The first push writes the key twice, so the pop does, too. -/
theorem Projection.frame_writes_change_store_doubled :
    ∃ moment ∈ ((doubledProgram.run doubledProjection).leaves (.start leftOverSetup.world)).passed,
      (doubledProjection.noted.pop.leaves (moment.stack, ([], moment.shared))).2.1 =
          [.put "k" "a", .remove "k"] ∧
        doubledProjection.noted.pop.Ends (moment.stack, ([], moment.shared)) fun _ t =>
          StoreUse.EachChanges (World.stored leftOverSetup.backing moment.shared) t.2.1 ∧
            World.stored leftOverSetup.backing t.2.2 =
              t.2.1.foldl StoreUse.after (World.stored leftOverSetup.backing moment.shared) := by
  have hreliable : leftOverSetup.backing.Reliable := trivial
  have howns : doubledProjection.Owns (World.stored leftOverSetup.backing) :=
    Setup.owns_projection hreliable 0 _
  have huses : doubledProgram.Uses (· ≠ .clear)
      (Projection.LeavesStore (World.stored leftOverSetup.backing)) := by
    simp [doubledProgram, ProjectionProgram.Uses]
  have hchange := Projection.frame_writes_change_store howns doubledProgram huses leftOverSetup.world
  have hpassed : ((((doubledProgram.run doubledProjection).leaves
      (.start leftOverSetup.world)).passed.find? fun moment =>
        (doubledProjection.noted.pop.leaves (moment.stack, ([], moment.shared))).2.1 =
          [.put "k" "a", .remove "k"]).isSome) = true := by
    decide +kernel
  obtain ⟨moment, hfind⟩ := Option.isSome_iff_exists.mp hpassed
  have hm := List.mem_of_find?_eq_some hfind
  have hpop := List.find?_some hfind
  rw [decide_eq_true_eq] at hpop
  exact ⟨moment, hm, hpop, (hchange moment (List.mem_cons_of_mem _ hm)).2⟩

end LogContext
