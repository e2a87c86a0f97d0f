import LogContext.Projection
import LogContext.Proofs.SnapshotStack
import LogContext.Proofs.StackInvariant
import Mathlib.Logic.Function.Basic

namespace LogContext

open SectionStack

namespace Projection

variable {ε σ : Type} {p : Projection ε σ} {stored : σ → Snapshot} {K : σ → Prop}

/-- `stored` is what the store of the projection holds. The store never fails, and neither the
resolver of the application nor the reports write to it, although these may fail. -/
structure Owns (p : Projection ε σ) (stored : σ → Snapshot) : Prop where
  lookUp : ∀ key s, ∃ t, p.lookUp key s = .ok (stored s key) t ∧ stored t = stored s
  put : ∀ key value s, ∃ t, p.put key value s = .ok () t ∧
    stored t = Function.update (stored s) key (some value)
  remove : ∀ key s, ∃ t, p.remove key s = .ok () t ∧
    stored t = Function.update (stored s) key none
  application : ∀ s, stored (p.application.leaves s) = stored s
  report : ∀ message sections s, stored ((p.report message sections).leaves s) = stored s

/-- Whatever the projection does beside its stack keeps `K`. -/
structure Respects (p : Projection ε σ) (K : σ → Prop) : Prop where
  lookUp : ∀ key, (p.lookUp key).Keeps K
  put : ∀ key value, (p.put key value).Keeps K
  remove : ∀ key, (p.remove key).Keeps K
  application : p.application.Keeps K
  report : ∀ message sections, (p.report message sections).Keeps K

/-- The store agrees with the stack on the active keys. -/
def Agrees (p : Projection ε σ) (stored : σ → Snapshot) (s : SectionStack × σ) : Prop :=
  Mirrors (· ∈ p.config.propertyNames) stored s

theorem Owns.write (owns : p.Owns stored) (name : String) (value : Option String) (s : σ) :
    ∃ t, p.write name value s = .ok () t ∧ stored t = Function.update (stored s) name value := by
  cases value with
  | none => exact owns.remove name s
  | some value => exact owns.put name value s

theorem Respects.write (respects : p.Respects K) (name : String) (value : Option String) :
    (p.write name value).Keeps K := by
  cases value with
  | none => exact respects.remove name
  | some value => exact respects.put name value

theorem Owns.quiet_storeHook (owns : p.Owns stored) : SectionStack.Quiet p.storeHook := by
  intro name value st s
  obtain ⟨t, ht, _⟩ := owns.write name value s
  refine ⟨t, ?_⟩
  simp only [storeHook, Work.beside, ht]

theorem Owns.settles_storeHook (owns : p.Owns stored) (respects : p.Respects K)
    (names : String → Prop) :
    SectionStack.Settles (fun s => Mirrors names stored s ∧ K s.2)
      (fun name s => Mirrors (fun other => names other ∧ other ≠ name) stored s ∧
        K s.2) p.storeHook := by
  intro name st s h
  obtain ⟨hm, hk⟩ := h
  obtain ⟨t, ht, hstored⟩ := owns.write name (st.latest name) s
  have hkt := (Work.ends_of_ok ht).mp (respects.write name (st.latest name) s hk)
  rw [storeHook, Work.ends_beside, Work.ends_of_ok ht]
  refine ⟨fun other ho => ?_, hkt⟩
  rw [hstored, Function.update_apply]
  by_cases eq : other = name
  · rw [if_pos eq, eq]
  · rw [if_neg eq]
    exact hm other ⟨ho, eq⟩

theorem Owns.removeAll (owns : p.Owns stored) (respects : p.Respects K) (keys : List String) (s : σ)
    (hk : K s) :
    ∃ t, p.removeAll keys s = .ok () t ∧ (∀ key ∈ keys, stored t key = none) ∧
      (∀ key ∉ keys, stored t key = stored s key) ∧ K t := by
  induction keys generalizing s with
  | nil => exact ⟨s, rfl, by simp, fun _ _ => rfl, hk⟩
  | cons key rest ih =>
    obtain ⟨t, ht, hstored⟩ := owns.remove key s
    have hkt := (Work.ends_of_ok ht).mp (respects.remove key s hk)
    obtain ⟨u, hu, hgone, hleft, hku⟩ := ih t hkt
    refine ⟨u, ?_, ?_, ?_, hku⟩
    · simp only [Projection.removeAll, bind, EStateM.bind, ht, hu]
    · intro other ho
      by_cases hr : other ∈ rest
      · exact hgone other hr
      · have eq : other = key := (List.mem_cons.mp ho).resolve_right hr
        rw [hleft other hr, hstored, eq, Function.update_self]
    · intro other ho
      rw [List.mem_cons, not_or] at ho
      rw [hleft other ho.2, hstored, Function.update_of_ne ho.1]

theorem Owns.clear (owns : p.Owns stored) (respects : p.Respects K) (s : σ) (hk : K s) :
    p.clear.Ends s fun _ t => (∀ key ∈ p.config.propertyNames, stored t key = none) ∧ K t := by
  obtain ⟨t, ht, hgone, _, hkt⟩ := owns.removeAll respects p.config.propertyNames s hk
  rw [Projection.clear, Work.ends_bind, Work.ends_of_ok ht]
  by_cases he : p.config.isEnabled = true
  · simp only [he, ↓reduceIte]
    have hreport := respects.report clearedMessage none t hkt
    rw [Work.ends_leaves] at hreport ⊢
    rw [owns.report]
    exact ⟨hgone, hreport⟩
  · simp only [he]
    exact ⟨hgone, hkt⟩

/-- All offers are of one value for a role, under its key. -/
def OfRole (config : Config) (role : Role) (offers : List Offer) : Prop :=
  ∃ value, ∀ offer ∈ offers, (config.activeKey? role, value) = offer

theorem applicationOffers_ofRole (happlication : p.application.Keeps K) :
    p.applicationOffers.Yields K (OfRole p.config .applicationName) := by
  unfold Projection.applicationOffers OfRole
  cases p.config.activeKey? .applicationName with
  | none => exact Work.yields_pure ⟨none, fun _ ho => nomatch ho⟩
  | some key =>
    refine happlication.yields.bind fun name? _ => ?_
    cases name? with
    | none => exact Work.yields_pure ⟨none, fun _ ho => nomatch ho⟩
    | some name => exact Work.yields_pure ⟨some name, fun _ ho => (List.mem_singleton.mp ho).symm⟩

theorem businessOffers_ofRole (p : Projection ε σ) (K : σ → Prop) (view : ExecutionView ε) :
    (p.businessOffers view).Yields K (OfRole p.config .businessKey) := by
  unfold Projection.businessOffers OfRole
  cases p.config.activeKey? .businessKey with
  | none => exact Work.yields_pure ⟨none, fun _ ho => nomatch ho⟩
  | some key =>
    refine (Work.keeps_ofExcept _).yields.bind fun business _ => ?_
    exact Work.yields_pure ⟨business, fun _ ho => (List.mem_singleton.mp ho).symm⟩

/-- What is offered for an execution is one value for each of some roles, under their keys. Reading it
does nothing but ask for the application. -/
theorem offers_by_role (happlication : p.application.Keeps K) (view : ExecutionView ε) :
    (p.offers view).Yields K fun offers => ∃ value : Role → Option String,
      ∀ offer ∈ offers, ∃ role, (p.config.activeKey? role, value role) = offer := by
  unfold Projection.offers
  refine (Work.keeps_ofExcept _).yields.bind fun activity _ => ?_
  refine (Work.keeps_ofExcept _).yields.bind fun definition _ => ?_
  refine (Work.keeps_ofExcept _).yields.bind fun instanceId _ => ?_
  refine (Work.keeps_ofExcept _).yields.bind fun tenant _ => ?_
  refine (applicationOffers_ofRole happlication).bind fun application ⟨name, hname⟩ => ?_
  refine (p.businessOffers_ofRole K view).bind fun business ⟨key, hkey⟩ => ?_
  refine Work.yields_pure ⟨fun role => role.casesOn activity name key definition instanceId tenant,
    fun offer ho => ?_⟩
  rcases List.mem_append.mp ho with ho | ho
  · rcases List.mem_append.mp ho with ho | ho
    · simp only [List.mem_cons, List.not_mem_nil, or_false] at ho
      rcases ho with rfl | rfl | rfl | rfl
      · exact ⟨.activityId, rfl⟩
      · exact ⟨.processDefinitionId, rfl⟩
      · exact ⟨.processInstanceId, rfl⟩
      · exact ⟨.tenantId, rfl⟩
    · exact ⟨.applicationName, hname offer ho⟩
  · exact ⟨.businessKey, hkey offer ho⟩

theorem not_mem_of_not_isEnabled {config : Config} (h : config.isEnabled ≠ true) (key : String) :
    key ∉ config.propertyNames := by
  have hempty : config.propertyNames = [] := by simpa [Config.isEnabled] using h
  simp [hempty]

/-- What is left of a push once the store is cleared, or need not be. -/
def pushSection (p : Projection ε σ) (view : ExecutionView ε) : Work ε (SectionStack × σ) Bool := do
  let offers ← (p.offers view).beside
  let changed ← SectionStack.push p.storeHook offers
  if changed then p.reportSections pushedMessage
  pure changed

theorem push_of_not_isEnabled (disabled : p.config.isEnabled ≠ true) (view : ExecutionView ε) :
    p.push view = pure false :=
  if_neg disabled

theorem ends_push_of_hasTracked (enabled : p.config.isEnabled = true) {view : ExecutionView ε}
    {st : SectionStack} (tracked : st.hasTracked = true) {s : σ}
    {post : Except ε Bool → SectionStack × σ → Prop} :
    (p.push view).Ends (st, s) post ↔ (p.pushSection view).Ends (st, s) post := by
  rw [Projection.push, if_pos enabled, Work.ends_bind, Work.ends_get]
  simp only
  rw [if_neg (by simp [tracked])]
  rfl

theorem ends_push_of_not_hasTracked (enabled : p.config.isEnabled = true) {view : ExecutionView ε}
    {st : SectionStack} (untracked : st.hasTracked ≠ true) {s : σ}
    {post : Except ε Bool → SectionStack × σ → Prop} :
    (p.push view).Ends (st, s) post ↔ p.clear.Ends s fun r t =>
      match r with
      | .ok _ => (p.pushSection view).Ends (st, t) post
      | .error e => post (.error e) (st, t) := by
  rw [Projection.push, if_pos enabled, Work.ends_bind, Work.ends_get]
  simp only
  rw [if_pos (by simp [untracked]), Work.ends_bind, Work.ends_beside]
  rfl

/-- `calm` holds between the calls of a projection. A change of the stack stirs a property, until the
store was told of it; what the projection does besides disturbs nothing. -/
structure Settled (p : Projection ε σ) (calm : SectionStack × σ → Prop)
    (stirred : String → SectionStack × σ → Prop) : Prop where
  invariant : Invariant calm stirred
  stir : ∀ name s, calm s → stirred name s
  storeHook : Settles calm stirred p.storeHook
  application : ∀ st, p.application.Keeps fun s => calm (st, s)
  report : ∀ message sections st, (p.report message sections).Keeps fun s => calm (st, s)

namespace Settled

variable {calm : SectionStack × σ → Prop} {stirred : String → SectionStack × σ → Prop}

theorem reportSections (settled : p.Settled calm stirred) (message : String) :
    (p.reportSections message).Keeps calm := by
  intro s hs
  rw [Projection.reportSections, Work.ends_bind, Work.ends_get]
  exact Work.ends_beside.mpr (settled.report message (some s.1.sectionCount) s.1 s.2 hs)

theorem pushSection (settled : p.Settled calm stirred) (view : ExecutionView ε) :
    (p.pushSection view).Keeps calm := by
  intro start hs
  obtain ⟨st, s⟩ := start
  rw [Projection.pushSection, Work.ends_bind, Work.ends_beside]
  refine (offers_by_role (settled.application st) view s hs).imp ?_
  intro r t ht
  cases r with
  | error e => exact ht.1
  | ok offers =>
    have hpush := SectionStack.push_keeps settled.invariant settled.storeHook offers
    refine hpush.bind (fun changed => ?_) (st, t) ht.1
    cases changed with
    | true => exact (settled.reportSections _).bind fun _ => Work.keeps_pure _
    | false => exact Work.keeps_pure _

theorem push (settled : p.Settled calm stirred) (view : ExecutionView ε) {st : SectionStack}
    (tracked : st.hasTracked = true) {s : σ} (h : calm (st, s)) :
    (p.push view).Ends (st, s) fun _ t => calm t := by
  by_cases henabled : p.config.isEnabled = true
  · rw [ends_push_of_hasTracked henabled tracked]
    exact settled.pushSection view (st, s) h
  · rw [push_of_not_isEnabled henabled]
    exact h

theorem pop (settled : p.Settled calm stirred) : p.pop.Keeps calm := by
  unfold Projection.pop
  split
  next =>
    refine Work.keeps_get.bind fun s => ?_
    refine (SectionStack.pop_keeps settled.invariant settled.storeHook).bind fun _ => ?_
    split
    next => exact settled.reportSections _
    next => exact Work.keeps_pure _
  next => exact Work.keeps_pure _

theorem writeLatest (settled : p.Settled calm stirred) (keys : List String) :
    (p.writeLatest keys).Keeps calm := by
  induction keys with
  | nil => exact Work.keeps_pure _
  | cons key rest ih =>
    intro s hs
    rw [Projection.writeLatest, Work.ends_bind, Work.ends_get]
    exact (settled.storeHook key s.1 s.2 (settled.stir key s hs)).bind fun _ => ih

theorem sync (settled : p.Settled calm stirred) : p.sync.Keeps calm := by
  refine Work.keeps_get.bind fun s => ?_
  simp only
  split
  next => exact settled.writeLatest _
  next => exact Work.keeps_pure _

end Settled

/-- While a property is stirred, the store may be wrong about this one property. -/
theorem Owns.settled (owns : p.Owns stored) (respects : p.Respects K) :
    p.Settled (fun s => p.Agrees stored s ∧ K s.2)
      (fun name s => Mirrors (fun other => other ∈ p.config.propertyNames ∧ other ≠ name) stored s ∧
        K s.2) where
  invariant := (invariant_mirrors _ _).and (invariant_beside K)
  stir := fun name s h => ⟨fun other ho => h.1 other ho.1, h.2⟩
  storeHook := owns.settles_storeHook respects _
  application := by
    intro st s h
    have hk := respects.application s h.2
    rw [Work.ends_leaves] at hk ⊢
    exact ⟨fun key hkey => (congrFun (owns.application s) key).trans (h.1 key hkey), hk⟩
  report := by
    intro message sections st s h
    have hk := respects.report message sections s h.2
    rw [Work.ends_leaves] at hk ⊢
    exact ⟨fun key hkey => (congrFun (owns.report message sections s) key).trans (h.1 key hkey), hk⟩

/-- A push needs agreement only if something was tracked before: else it clears the store. -/
theorem Owns.push (owns : p.Owns stored) (respects : p.Respects K) (view : ExecutionView ε)
    (st : SectionStack) (s : σ) (ha : st.hasTracked = true → p.Agrees stored (st, s)) (hk : K s) :
    (p.push view).Ends (st, s) fun _ t => p.Agrees stored t ∧ K t.2 := by
  by_cases ht : st.hasTracked = true
  · exact (owns.settled respects).push view ht ⟨ha ht, hk⟩
  by_cases henabled : p.config.isEnabled = true
  case neg =>
    rw [push_of_not_isEnabled henabled]
    exact ⟨fun key hkey => absurd hkey (not_mem_of_not_isEnabled henabled key), hk⟩
  rw [ends_push_of_not_hasTracked henabled ht]
  refine (owns.clear respects s hk).imp ?_
  intro r t h
  obtain ⟨hgone, hkt⟩ := h
  have hat : p.Agrees stored (st, t) := by
    intro key hkey
    rw [latest_of_not_hasTracked (by simpa using ht)]
    exact hgone key hkey
  cases r with
  | error e => exact ⟨hat, hkt⟩
  | ok => exact (owns.settled respects).pushSection view (st, t) ⟨hat, hkt⟩

theorem Owns.storedOffers (owns : p.Owns stored) (respects : p.Respects K) (keys : List String)
    (s : σ) (hk : K s) :
    ∃ t, p.storedOffers keys s = .ok (keys.map fun key => (some key, stored s key)) t ∧
      stored t = stored s ∧ K t := by
  induction keys generalizing s with
  | nil => exact ⟨s, rfl, rfl, hk⟩
  | cons key rest ih =>
    obtain ⟨t, ht, hstored⟩ := owns.lookUp key s
    have hkt := (Work.ends_of_ok ht).mp (respects.lookUp key s hk)
    obtain ⟨u, hu, hstored', hku⟩ := ih t hkt
    refine ⟨u, ?_, hstored'.trans hstored, hku⟩
    simp only [Projection.storedOffers, bind, EStateM.bind, ht, hu, hstored]
    rfl

theorem foldl_offer_of_mem (f : Snapshot) {keys : List String}
    (usable : ∀ key ∈ keys, isBlank key = false) (draft : Bool × Snapshot) {key : String}
    (h : key ∈ keys ∨ draft.2 key = f key) :
    ((keys.map fun key => (some key, f key)).foldl Snapshot.offer draft).2 key = f key := by
  induction keys generalizing draft with
  | nil => exact h.resolve_left (by simp)
  | cons first rest ih =>
    rw [List.map_cons, List.foldl_cons]
    apply ih (fun other ho => usable other (List.mem_cons_of_mem _ ho))
    rw [Snapshot.offer_snd draft (usable first (by simp)), Function.update_apply]
    by_cases eq : key = first
    · exact Or.inr (by rw [if_pos eq, eq])
    · rw [if_neg eq]
      exact h.imp_left fun hm => (List.mem_cons.mp hm).resolve_left eq

/-- Fetching brings the stack to agree with the store, whatever was tracked before. -/
theorem Owns.fetch (owns : p.Owns stored) (respects : p.Respects K) (st : SectionStack) (s : σ)
    (hk : K s) : p.fetch.Ends (st, s) fun _ t => p.Agrees stored t ∧ K t.2 := by
  by_cases he : p.config.isEnabled ≠ true
  · rw [Projection.fetch, if_neg he]
    exact ⟨fun key hkey => absurd hkey (not_mem_of_not_isEnabled he key), hk⟩
  rw [ne_eq, not_not] at he
  obtain ⟨t, ht, hstored, hkt⟩ := owns.storedOffers respects p.config.propertyNames s hk
  rw [Projection.fetch, if_pos he, Work.ends_bind, Work.ends_beside, Work.ends_of_ok ht]
  obtain ⟨st', t', hpush, hsnap⟩ := push_snapshots (quiet_silent (ε := ε))
    (p.config.propertyNames.map fun key => (some key, stored s key)) st t
  have hsame : t' = t :=
    (Work.ends_of_ok hpush).mp (push_silent_keeps _ t (st, t) rfl)
  have hagrees : p.Agrees stored (st', t') := by
    intro key hkey
    have htop := congrFun (congrArg SnapshotStack.top hsnap) key
    rw [SnapshotStack.top_push, foldl_offer_of_mem _
      (fun _ h => Config.not_isBlank_of_mem_propertyNames h) _ (Or.inl hkey)] at htop
    simp only [hsame, hstored]
    exact htop.symm
  refine Work.Ends.bind ((Work.ends_of_ok hpush).mpr ⟨hagrees, hsame ▸ hkt⟩) fun changed => ?_
  cases changed with
  | true => exact ((owns.settled respects).reportSections _).bind fun _ => Work.keeps_pure _
  | false => exact Work.keeps_pure _

end Projection

end LogContext
