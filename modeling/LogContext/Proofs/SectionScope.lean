import LogContext.Proofs.WorldStore
import Mathlib.Data.List.Basic

namespace LogContext

/-- What an execution publishes while an application is current, in the order in which it counts. -/
def Execution.facts (e : Execution) (application : Option String) : List (Role × Option String) :=
  [(.activityId, e.activityId), (.processDefinitionId, e.processDefinitionId),
    (.processInstanceId, e.processInstanceId), (.tenantId, e.tenantId)] ++
  (application.map fun name => (Role.applicationName, some name)).toList ++
  [(.businessKey, e.businessKey)]

namespace Config

/-- A fact overwrites the value under the key of its role, if the role is turned on. -/
def publish (config : Config) (env : Snapshot) (fact : Role × Option String) : Snapshot :=
  match config.activeKey? fact.1 with
  | none => env
  | some key => Function.update env key fact.2

/-- The values inside a section, from those around it. -/
def scope (config : Config) (application : Option String) (e : Execution) (env : Snapshot) :
    Snapshot :=
  (e.facts application).foldl config.publish env

theorem offer_publish (config : Config) (draft : Bool × Snapshot) (fact : Role × Option String) :
    (Snapshot.offer draft (config.activeKey? fact.1, fact.2)).2 = config.publish draft.2 fact := by
  unfold publish
  cases h : config.activeKey? fact.1 with
  | none => rfl
  | some key =>
    have husable : isBlank key = false := by
      simpa using (Option.filter_eq_some_iff.mp h).2
    exact Snapshot.offer_snd draft husable fact.2

theorem foldl_offer_publish (config : Config) (facts : List (Role × Option String))
    (draft : Bool × Snapshot) :
    ((facts.map fun fact => (config.activeKey? fact.1, fact.2)).foldl Snapshot.offer draft).2 =
      facts.foldl config.publish draft.2 := by
  induction facts generalizing draft with
  | nil => rfl
  | cons fact rest ih =>
    rw [List.map_cons, List.foldl_cons, List.foldl_cons, ih, offer_publish]

theorem publish_of_activeKey?_eq_none {config : Config} {fact : Role × Option String}
    (h : config.activeKey? fact.1 = none) (env : Snapshot) : config.publish env fact = env := by
  simp only [publish, h]

theorem scope_of_not_isEnabled {config : Config} (h : config.isEnabled ≠ true)
    (application : Option String) (e : Execution) (env : Snapshot) :
    config.scope application e env = env := by
  apply List.foldl_fixed'
  intro fact
  apply publish_of_activeKey?_eq_none
  cases hkey : config.activeKey? fact.1 with
  | none => rfl
  | some key => exact absurd (mem_propertyNames hkey) (Projection.not_mem_of_not_isEnabled h key)

end Config

namespace Setup

variable (setup : Setup) (index : Nat) (config : Config)

theorem applicationOffers_publish (w : World) :
    ∃ offers, (setup.plainProjection index config).applicationOffers w = .ok offers w ∧
      ∀ draft, (offers.foldl Snapshot.offer draft).2 =
        (w.space.application.map fun name => (Role.applicationName, some name)).toList.foldl
          config.publish draft.2 := by
  cases hkey : config.activeKey? .applicationName with
  | none =>
    refine ⟨[], ?_, fun draft => ?_⟩
    · simp only [Projection.applicationOffers, plainProjection, Setup.projection, hkey]
      rfl
    · cases w.space.application with
      | none => rfl
      | some name => exact (Config.publish_of_activeKey?_eq_none hkey draft.2).symm
  | some key =>
    have hanswer : (setup.plainProjection index config).application w =
        .ok w.space.application w := rfl
    refine ⟨(w.space.application.map fun name => (some key, some name)).toList, ?_, fun draft => ?_⟩
    · simp only [Projection.applicationOffers, config_plainProjection, hkey, bind, EStateM.bind,
        hanswer]
      cases w.space.application <;> rfl
    · cases w.space.application with
      | none => rfl
      | some name =>
        have hoffer := config.offer_publish draft (.applicationName, some name)
        rw [hkey] at hoffer
        exact hoffer

theorem businessOffers_publish (e : Execution) (w : World) :
    ∃ offers, (setup.plainProjection index config).businessOffers (.ofExecution e) w =
        .ok offers w ∧
      ∀ draft, (offers.foldl Snapshot.offer draft).2 =
        config.publish draft.2 (.businessKey, e.businessKey) := by
  cases hkey : config.activeKey? .businessKey with
  | none =>
    refine ⟨[], ?_, fun draft => (Config.publish_of_activeKey?_eq_none hkey draft.2).symm⟩
    simp only [Projection.businessOffers, config_plainProjection, hkey]
    rfl
  | some key =>
    refine ⟨[(some key, e.businessKey)], ?_, fun draft => ?_⟩
    · simp only [Projection.businessOffers, config_plainProjection, hkey]
      rfl
    · have hoffer := config.offer_publish draft (.businessKey, e.businessKey)
      rw [hkey] at hoffer
      exact hoffer

theorem offers_scope (e : Execution) (w : World) :
    ∃ offers, (setup.plainProjection index config).offers (.ofExecution e) w = .ok offers w ∧
      ∀ draft, (offers.foldl Snapshot.offer draft).2 =
        config.scope w.space.application e draft.2 := by
  obtain ⟨apps, happs, hfoldApps⟩ := setup.applicationOffers_publish index config w
  obtain ⟨keys, hkeys, hfoldKeys⟩ := setup.businessOffers_publish index config e w
  let facts : List (Role × Option String) :=
    [(.activityId, e.activityId), (.processDefinitionId, e.processDefinitionId),
      (.processInstanceId, e.processInstanceId), (.tenantId, e.tenantId)]
  refine ⟨(facts.map fun fact => (config.activeKey? fact.1, fact.2)) ++ apps ++ keys, ?_, ?_⟩
  · have hread : ∀ f, (ExecutionView.ofExecution e : ExecutionView Failure) f = .ok (e.get f) :=
      fun _ => rfl
    simp only [Projection.offers, hread, Work.ofExcept, bind, EStateM.bind, pure, EStateM.pure, happs,
      hkeys]
    rfl
  · intro draft
    have hfacts := config.foldl_offer_publish facts draft
    rw [List.foldl_append, List.foldl_append, hfoldKeys, hfoldApps, hfacts, Config.scope,
      Execution.facts, List.foldl_append, List.foldl_append]
    rfl

theorem clear_ok (reliable : setup.backing.Reliable) (w : World) :
    ∃ w', (setup.plainProjection index config).clear w = .ok () w' ∧
      w'.space.application = w.space.application := by
  obtain ⟨w', hremove, _, _, hscene⟩ := (Setup.owns_plainProjection reliable index config).removeAll
    (setup.respects_scene index config w.space.application w.records) config.propertyNames w
    ⟨rfl, rfl⟩
  refine ⟨w', ?_, hscene.1⟩
  rw [Projection.clear, config_plainProjection]
  simp only [bind, EStateM.bind, hremove]
  split <;> rfl

theorem pushSection_scope (reliable : setup.backing.Reliable) (e : Execution) (st : SectionStack)
    (w : World) :
    ((setup.plainProjection index config).pushSection (.ofExecution e)).Ends (st, w) fun r t =>
      ∃ changed, r = .ok changed ∧
        st.snapshots.Entered (config.scope w.space.application e st.latest) changed
          t.1.snapshots := by
  obtain ⟨offers, hoffers, hscope⟩ := setup.offers_scope index config e w
  obtain ⟨st', w', hpush, hsnap⟩ := SectionStack.push_snapshots
    (Setup.owns_plainProjection reliable index config).quiet_storeHook offers st w
  have hentered := st.snapshots.entered_push offers
  have hfold := hscope (false, st.latest)
  have htop : st.snapshots.top = st.latest := rfl
  rw [htop, hfold, ← hsnap] at hentered
  rw [Projection.pushSection, Work.ends_bind, Work.ends_beside, Work.ends_of_ok hoffers]
  simp only
  rw [Work.ends_bind, Work.ends_of_ok hpush]
  cases hflag : (st.snapshots.push offers).1 with
  | true => exact ⟨true, rfl, hflag ▸ hentered⟩
  | false => exact ⟨false, rfl, hflag ▸ hentered⟩

/-- A push enters the section with the values of its execution. -/
theorem push_scope (reliable : setup.backing.Reliable) (e : Execution) (st : SectionStack)
    (w : World) :
    ((setup.plainProjection index config).push (.ofExecution e)).Ends (st, w) fun r t =>
      ∃ changed, r = .ok changed ∧ (changed = true → config.isEnabled = true) ∧
        st.snapshots.Entered (config.scope w.space.application e st.latest) changed
          t.1.snapshots := by
  by_cases henabled : config.isEnabled ≠ true
  · rw [Projection.push_of_not_isEnabled henabled]
    exact ⟨false, rfl, by simp, rfl, Config.scope_of_not_isEnabled henabled _ _ _⟩
  rw [ne_eq, not_not] at henabled
  by_cases ht : st.hasTracked = true
  · rw [Projection.ends_push_of_hasTracked henabled ht]
    refine (setup.pushSection_scope index config reliable e st w).imp ?_
    intro r t h
    obtain ⟨changed, hr, hentered⟩ := h
    exact ⟨changed, hr, fun _ => henabled, hentered⟩
  · obtain ⟨w', hclear, happ⟩ := setup.clear_ok index config reliable w
    rw [Projection.ends_push_of_not_hasTracked henabled ht, Work.ends_of_ok hclear]
    refine (setup.pushSection_scope index config reliable e st w').imp ?_
    intro r t h
    obtain ⟨changed, hr, hentered⟩ := h
    rw [happ] at hentered
    exact ⟨changed, hr, fun _ => henabled, hentered⟩

theorem pop_scope (reliable : setup.backing.Reliable) (enabled : config.isEnabled = true)
    (st : SectionStack) (w : World) :
    ((setup.plainProjection index config).pop).Ends (st, w) fun r t =>
      r = .ok () ∧ t.1.snapshots = st.snapshots.pop := by
  obtain ⟨st', w', hpop, hsnap⟩ := SectionStack.pop_snapshots
    (Setup.owns_plainProjection reliable index config).quiet_storeHook st w
  rw [Projection.pop, config_plainProjection, if_pos enabled, Work.ends_bind, Work.ends_get]
  simp only
  rw [Work.ends_bind, Work.ends_of_ok hpop]
  simp only
  split
  next => exact ⟨rfl, hsnap⟩
  next => exact ⟨rfl, hsnap⟩

end Setup

end LogContext
