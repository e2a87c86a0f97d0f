import LogContext.Proofs.ProjectionRun
import LogContext.Proofs.PairedStacks

namespace LogContext

open SectionStack

namespace Projection

variable {ε σ τ : Type} {p : Projection ε σ} {q : Projection ε τ} {R : σ → τ → Prop}

/-- Two projections publish the same keys, and what they call ends alike in states that are related,
and leaves related states. -/
structure Alike (R : σ → τ → Prop) (p : Projection ε σ) (q : Projection ε τ) : Prop where
  config : q.config = p.config
  lookUp : ∀ key ∈ p.config.propertyNames, Work.Matches R (p.lookUp key) (q.lookUp key)
  put : ∀ key value, Work.Matches R (p.put key value) (q.put key value)
  remove : ∀ key, Work.Matches R (p.remove key) (q.remove key)
  application : Work.Matches R p.application q.application
  report : ∀ message sections, Work.Matches R (p.report message sections) (q.report message sections)

namespace Alike

theorem write (alike : Alike R p q) (name : String) (value : Option String) :
    Work.Matches R (p.write name value) (q.write name value) := by
  cases value with
  | none => exact alike.remove name
  | some value => exact alike.put name value

theorem storeHook (alike : Alike R p q) : Hook.Alike R p.storeHook q.storeHook :=
  fun name value => (alike.write name value).beside

theorem removeAll (alike : Alike R p q) (keys : List String) :
    Work.Matches R (p.removeAll keys) (q.removeAll keys) := by
  induction keys with
  | nil => exact Work.matches_pure _
  | cons key rest ih => exact (alike.remove key).bind fun _ => ih

theorem clear (alike : Alike R p q) : Work.Matches R p.clear q.clear := by
  rw [Projection.clear, Projection.clear, alike.config]
  refine (alike.removeAll _).bind fun _ => ?_
  split
  next => exact alike.report clearedMessage none
  next => exact Work.matches_pure _

theorem applicationOffers (alike : Alike R p q) :
    Work.Matches R p.applicationOffers q.applicationOffers := by
  unfold Projection.applicationOffers
  rw [alike.config]
  cases p.config.activeKey? .applicationName with
  | none => exact Work.matches_pure _
  | some key =>
    refine alike.application.bind fun name? => ?_
    cases name? <;> exact Work.matches_pure _

theorem businessOffers (alike : Alike R p q) (view : ExecutionView ε) :
    Work.Matches R (p.businessOffers view) (q.businessOffers view) := by
  unfold Projection.businessOffers
  rw [alike.config]
  cases p.config.activeKey? .businessKey with
  | none => exact Work.matches_pure _
  | some key => exact (Work.matches_ofExcept _).bind fun _ => Work.matches_pure _

theorem offers (alike : Alike R p q) (view : ExecutionView ε) :
    Work.Matches R (p.offers view) (q.offers view) := by
  unfold Projection.offers
  rw [alike.config]
  refine (Work.matches_ofExcept _).bind fun activity => ?_
  refine (Work.matches_ofExcept _).bind fun definition => ?_
  refine (Work.matches_ofExcept _).bind fun instanceId => ?_
  refine (Work.matches_ofExcept _).bind fun tenant => ?_
  refine alike.applicationOffers.bind fun application => ?_
  exact (alike.businessOffers view).bind fun business => Work.matches_pure _

theorem reportSections (alike : Alike R p q) (message : String) :
    Work.Matches (Paired R) (p.reportSections message) (q.reportSections message) := by
  refine Work.matches_get fun s t hst => ?_
  rw [hst.1]
  exact (alike.report message (some s.1.sectionCount)).beside

theorem pushSection (alike : Alike R p q) (view : ExecutionView ε) :
    Work.Matches (Paired R) (p.pushSection view) (q.pushSection view) := by
  refine (alike.offers view).beside.bind fun offers => ?_
  refine (push_alike alike.storeHook offers).bind fun changed => ?_
  cases changed with
  | true => exact (alike.reportSections pushedMessage).bind fun _ => Work.matches_pure _
  | false => exact Work.matches_pure _

theorem push (alike : Alike R p q) (view : ExecutionView ε) :
    Work.Matches (Paired R) (p.push view) (q.push view) := by
  rw [Projection.push, Projection.push, alike.config]
  split
  next =>
    refine Work.matches_get fun s t hst => ?_
    rw [hst.1]
    simp only
    split
    next => exact alike.clear.beside.bind fun _ => alike.pushSection view
    next => exact alike.pushSection view
  next => exact Work.matches_pure _

theorem pop (alike : Alike R p q) : Work.Matches (Paired R) p.pop q.pop := by
  rw [Projection.pop, Projection.pop, alike.config]
  split
  next =>
    refine Work.matches_get fun s t hst => ?_
    rw [hst.1]
    refine (pop_alike alike.storeHook).bind fun _ => ?_
    split
    next => exact alike.reportSections poppedMessage
    next => exact Work.matches_pure _
  next => exact Work.matches_pure _

theorem pushOffers (alike : Alike R p q) (offers : List Offer) :
    Work.Matches (Paired R) (p.pushOffers offers) (q.pushOffers offers) :=
  push_alike alike.storeHook offers

theorem storedOffers (alike : Alike R p q) {keys : List String}
    (hkeys : ∀ key ∈ keys, key ∈ p.config.propertyNames) :
    Work.Matches R (p.storedOffers keys) (q.storedOffers keys) := by
  induction keys with
  | nil => exact Work.matches_pure _
  | cons key rest ih =>
    have hrest := ih fun other ho => hkeys other (List.mem_cons_of_mem _ ho)
    exact (alike.lookUp key (hkeys key List.mem_cons_self)).bind fun value =>
      hrest.bind fun offers => Work.matches_pure _

theorem fetch (alike : Alike R p q) : Work.Matches (Paired R) p.fetch q.fetch := by
  rw [Projection.fetch, Projection.fetch, alike.config]
  split
  next =>
    refine (alike.storedOffers fun _ h => h).beside.bind fun offers => ?_
    refine (push_alike alike_silent offers).bind fun changed => ?_
    cases changed with
    | true => exact (alike.reportSections fetchedMessage).bind fun _ => Work.matches_pure _
    | false => exact Work.matches_pure _
  next => exact Work.matches_pure _

theorem writeLatest (alike : Alike R p q) (keys : List String) :
    Work.Matches (Paired R) (p.writeLatest keys) (q.writeLatest keys) := by
  induction keys with
  | nil => exact Work.matches_pure _
  | cons key rest ih =>
    refine Work.matches_get fun s t hst => ?_
    rw [hst.1]
    exact (alike.storeHook key (s.1.latest key)).bind fun _ => ih

theorem sync (alike : Alike R p q) : Work.Matches (Paired R) p.sync q.sync := by
  rw [Projection.sync, Projection.sync, alike.config]
  refine Work.matches_get fun s t hst => ?_
  rw [hst.1]
  simp only
  split
  next => exact alike.writeLatest _
  next => exact Work.matches_pure _

theorem call (alike : Alike R p q) (c : ProjectionCall ε) :
    Work.Matches (Paired R) (c.run p) (c.run q) := by
  cases c with
  | push view => exact (alike.push view).map some
  | pop => exact alike.pop.map _
  | fetch => exact alike.fetch.map some
  | sync => exact alike.sync.map _
  | clear => exact alike.clear.beside.map _

end Alike

end Projection

end LogContext
