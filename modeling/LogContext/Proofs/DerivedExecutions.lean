import LogContext.Proofs.ReadValues
import LogContext.Proofs.ValueChanges

namespace LogContext

open SectionStack

/-- What the last of these overrides to name a field gives it, if any does. -/
def lastOverride? (chain : List Overrides) (f : ExecutionField) : Option (Option String) :=
  chain.reverse.findSome? fun overrides => overrides.find? f.name

theorem lastOverride?_cons (first : Overrides) (rest : List Overrides) (f : ExecutionField) :
    lastOverride? (first :: rest) f = (lastOverride? rest f).or (first.find? f.name) := by
  rw [lastOverride?, List.reverse_cons, List.findSome?_append, List.findSome?_singleton,
    lastOverride?]

/-- By induction on the chain: a field that the rest of it does not name is inherited from the first
child. -/
theorem Execution.get_foldl_derive (e : Execution) (chain : List Overrides) (f : ExecutionField) :
    (chain.foldl derive e).get f = (lastOverride? chain f).getD (e.get f) := by
  induction chain generalizing e with
  | nil => rfl
  | cons first rest ih =>
    rw [List.foldl_cons, ih, get_derive, lastOverride?_cons]
    cases lastOverride? rest f <;> rfl

namespace SectionStack

theorem latest_foldl_of_not_offered {name : String} {offers : List Offer}
    (fresh : name ∉ offers.filterMap Prod.fst) (draft : Option Nat × SectionStack) :
    (offers.foldl consider draft).2.latest name = draft.2.latest name := by
  induction offers generalizing draft with
  | nil => rfl
  | cons offer rest ih =>
    have hfresh : ∀ other ∈ offer :: rest, other.1 ≠ some name := fun other ho heq =>
      fresh (List.mem_filterMap.mpr ⟨other, ho, heq⟩)
    have hrest : name ∉ rest.filterMap Prod.fst := by
      intro hm
      obtain ⟨other, ho, heq⟩ := List.mem_filterMap.mp hm
      exact hfresh other (List.mem_cons_of_mem _ ho) heq
    rw [List.foldl_cons, ih hrest, latest_consider,
      if_neg fun h => hfresh offer List.mem_cons_self h.1]

/-- After a push that offers no name twice, a property is what was offered for it. -/
theorem latest_offered_of_distinct {offers : List Offer}
    (distinct : (offers.filterMap Prod.fst).Nodup) (st : SectionStack) {name : String}
    {value : Option String} (offered : (some name, value) ∈ offers) (usable : isBlank name = false) :
    (st.offered offers).2.latest name = value := by
  obtain ⟨before, after, rfl⟩ := List.append_of_mem offered
  rw [List.filterMap_append] at distinct
  have hafter : (name :: after.filterMap Prod.fst).Nodup := (List.nodup_append.mp distinct).2.1
  have hfresh : name ∉ after.filterMap Prod.fst := (List.nodup_cons.mp hafter).1
  rw [SectionStack.offered, List.foldl_append, List.foldl_cons, latest_foldl_of_not_offered hfresh,
    latest_consider, if_pos ⟨rfl, usable⟩]

theorem change?_of_usable (st : SectionStack) {name : String} (usable : isBlank name = false)
    (value : Option String) :
    st.change? (some name, value) =
      if value = st.latest name then none else some (name, value) := by
  by_cases heq : value = st.latest name
  · simp [change?, changed?, usable, heq]
  · simp [change?, changed?, usable, heq, Ne.symm heq]

end SectionStack

namespace Config

/-- The keys of the published fields whose values differ, in order, with the new values. -/
def differences (config : Config) (old new : ExecutionField → Option String) :
    List (String × Option String) :=
  ExecutionField.all.filterMap fun f =>
    if new f = old f then none else (config.activeKey? f.role).map fun key => (key, new f)

/-- What is offered for the fields of an execution. -/
def fieldOffer (config : Config) (e : Execution) (f : ExecutionField) : Offer :=
  (config.activeKey? f.role, e.get f)

/-- What can be offered of an application: nothing, or its name under the key of this role. -/
def NamesApplication (config : Config) (application : List Offer) : Prop :=
  application = [] ∨ ∃ key name, config.activeKey? .applicationName = some key ∧
    application = [(some key, some name)]

/-- All that is offered of an execution, with what is offered of an application. -/
def executionOffers (config : Config) (e : Execution) (application : List Offer) : List Offer :=
  [.activityId, .processDefinitionId, .processInstanceId, .tenantId].map (config.fieldOffer e) ++
    application ++ ([.businessKey].map (config.fieldOffer e)).filter fun offer => offer.1.isSome

variable {ε : Type}

theorem readBusiness_ofExecution (config : Config) (e : Execution) :
    config.readBusiness (.ofExecution (ε := ε) e) =
      .ok (([.businessKey].map (config.fieldOffer e)).filter fun offer => offer.1.isSome) := by
  rw [readBusiness]
  cases hkey : config.activeKey? .businessKey <;>
    simp [fieldOffer, ExecutionField.role, hkey] <;> rfl

theorem reading_ofExecution (config : Config) (e : Execution) (answer : Except ε (Option String)) :
    config.reading (.ofExecution e) answer =
      (config.readApplication answer).map (config.executionOffers e) := by
  rw [reading, readBusiness_ofExecution]
  cases config.readApplication answer <;> rfl

theorem namesApplication_of_read {config : Config} {answer : Except ε (Option String)}
    {application : List Offer} (h : config.readApplication answer = .ok application) :
    config.NamesApplication application := by
  rw [readApplication] at h
  cases hkey : config.activeKey? .applicationName with
  | none =>
    rw [hkey] at h
    exact Or.inl (Except.ok.inj h).symm
  | some key =>
    rw [hkey] at h
    cases answer with
    | error e => cases h
    | ok name? =>
      cases name? with
      | none => exact Or.inl (Except.ok.inj h).symm
      | some name => exact Or.inr ⟨key, name, hkey, (Except.ok.inj h).symm⟩

variable {config : Config} {application : List Offer}

theorem NamesApplication.role_of_mem (names : config.NamesApplication application) {key : String}
    {value : Option String} (h : (some key, value) ∈ application) :
    ∃ role, config.activeKey? role = some key := by
  obtain rfl | ⟨_, name, hkey, rfl⟩ := names
  · exact absurd h List.not_mem_nil
  · obtain ⟨hname, -⟩ := Prod.mk.inj (List.mem_singleton.mp h)
    exact ⟨_, hkey.trans hname.symm⟩

/-- If no two roles share a key, nothing is offered twice. -/
theorem executionOffers_distinct (distinct : config.propertyNames.Nodup) (e : Execution)
    (names : config.NamesApplication application) :
    ((config.executionOffers e application).filterMap Prod.fst).Nodup := by
  have hroles : ((([.activityId, .processDefinitionId, .processInstanceId, .tenantId] ++
      [.applicationName] ++ [.businessKey] : List Role)).filterMap config.activeKey?).Nodup :=
    List.Nodup.filterMap (fun _ _ _ h h' => eq_of_activeKey? distinct h h') (by decide)
  rw [List.filterMap_append, List.filterMap_append] at hroles
  have hfields : ∀ fields : List ExecutionField,
      (fields.map (config.fieldOffer e)).filterMap Prod.fst =
        (fields.map ExecutionField.role).filterMap config.activeKey? := by
    intro fields
    rw [List.filterMap_map, List.filterMap_map]
    rfl
  have happlication : (application.filterMap Prod.fst).Sublist
      ([Role.applicationName].filterMap config.activeKey?) := by
    rcases names with rfl | ⟨key, name, hkey, rfl⟩
    · exact List.nil_sublist _
    · rw [List.filterMap_cons_some hkey]
      exact .refl _
  refine hroles.sublist ?_
  rw [executionOffers, List.filterMap_append, List.filterMap_append, hfields]
  refine ((List.Sublist.refl _).append happlication).append ?_
  refine (List.filter_sublist.filterMap Prod.fst).trans ?_
  rw [hfields]
  exact .refl _

theorem mem_executionOffers {f : ExecutionField} {key : String}
    (active : config.activeKey? f.role = some key) (e : Execution) (application : List Offer) :
    (some key, e.get f) ∈ config.executionOffers e application := by
  cases f <;> simp_all [executionOffers, fieldOffer, ExecutionField.role]

theorem mem_executionOffers_of_mem {offer : Offer} (h : offer ∈ application) (e : Execution) :
    offer ∈ config.executionOffers e application :=
  List.mem_append_left _ (List.mem_append_right _ h)

/-- What is taken from the offers of an execution, if nothing is taken of the application. -/
theorem filterMap_executionOffers {β : Type} {take : Offer → Option β}
    (unnamed : ∀ value, take (none, value) = none) (left : ∀ offer ∈ application, take offer = none)
    (e : Execution) : (config.executionOffers e application).filterMap take =
      ExecutionField.all.filterMap fun f => take (config.fieldOffer e f) := by
  have hbusiness : (([.businessKey].map (config.fieldOffer e)).filter
      fun offer => offer.1.isSome).filterMap take =
        [ExecutionField.businessKey].filterMap fun f => take (config.fieldOffer e f) := by
    have hoffer : config.fieldOffer e .businessKey =
        (config.activeKey? .businessKey, e.get .businessKey) := rfl
    rw [List.map_singleton, List.filterMap_cons, hoffer]
    cases config.activeKey? .businessKey with
    | none => rw [unnamed]; rfl
    | some key => rfl
  have hall : ExecutionField.all =
      [.activityId, .processDefinitionId, .processInstanceId, .tenantId] ++ [.businessKey] := rfl
  rw [executionOffers, List.filterMap_append, List.filterMap_append, hbusiness,
    List.filterMap_eq_nil_iff.mpr left, List.append_nil, List.filterMap_map, hall,
    List.filterMap_append]
  rfl

/-- Where a key has the old value, its change back is a difference the other way. -/
theorem map_differences {current : String → Option String} {old : ExecutionField → Option String}
    (holds : ∀ f key, config.activeKey? f.role = some key → current key = old f)
    (new : ExecutionField → Option String) :
    (config.differences old new).map (fun change => (change.1, current change.1)) =
      config.differences new old := by
  rw [differences, List.map_filterMap, differences]
  refine List.filterMap_congr fun f _ => ?_
  by_cases heq : new f = old f
  · rw [if_pos heq, if_pos heq.symm]
    rfl
  · rw [if_neg heq, if_neg (Ne.symm heq)]
    cases hkey : config.activeKey? f.role with
    | none => rfl
    | some key => simp [holds f key hkey]

end Config

namespace SectionStack

variable {config : Config} {application : List Offer}

/-- On a stack that a push of one execution has left, a push of another one changes the fields in which
they differ, and these only. -/
theorem changes_executionOffers (distinct : config.propertyNames.Nodup) (e child : Execution)
    (names : config.NamesApplication application) {st : SectionStack}
    (fields : ∀ f key, config.activeKey? f.role = some key → st.latest key = e.get f)
    (named : ∀ key value, (some key, value) ∈ application → st.latest key = value) :
    changes (none, st) (config.executionOffers child application) =
      config.differences e.get child.get := by
  rw [changes_of_distinct (Config.executionOffers_distinct distinct child names),
    Config.filterMap_executionOffers (fun _ => rfl), Config.differences]
  · refine List.filterMap_congr fun f _ => ?_
    rw [Config.fieldOffer]
    cases hkey : config.activeKey? f.role with
    | none => simp [change?, changed?]
    | some key =>
      have husable := Config.not_isBlank_of_mem_propertyNames (Config.mem_propertyNames hkey)
      rw [change?_of_usable st husable, fields f key hkey]
      rfl
  · intro offer ho
    rcases names with rfl | ⟨key, name, hkey, rfl⟩
    · exact absurd ho List.not_mem_nil
    · have husable := Config.not_isBlank_of_mem_propertyNames (Config.mem_propertyNames hkey)
      rw [List.mem_singleton.mp ho, change?_of_usable st husable,
        if_pos (named key (some name) List.mem_cons_self).symm]

end SectionStack

namespace Projection

variable {ε σ : Type} {p : Projection ε σ} {stored : σ → Snapshot}

/-- The store takes every write. -/
def WritesSucceed (p : Projection ε σ) : Prop :=
  ∀ name value s, ∃ t, p.write name value s = .ok () t

theorem Owns.writesSucceed (owns : p.Owns stored) : p.WritesSucceed := fun name value s =>
  (owns.write name value s).imp fun _ h => h.1

/-- Nothing need be known of what the store holds. -/
theorem WritesSucceed.driven (writes : p.WritesSucceed) :
    p.Driven (fun _ _ => ()) (fun _ => ()) fun _ => True where
  write := fun name value s _ => (writes name value s).imp fun _ h => ⟨h, rfl, trivial⟩
  application := fun _ _ _ => Work.ends_leaves.mpr ⟨rfl, trivial⟩
  report := fun _ _ _ _ _ => Work.ends_leaves.mpr ⟨rfl, trivial⟩

theorem ReportsSucceed.noted (reports : p.ReportsSucceed) : p.noted.ReportsSucceed := by
  intro message sections s
  obtain ⟨t, ht⟩ := reports message sections s.2
  exact ⟨(s.1, t), by simp only [Projection.noted, Work.beside, ht]⟩

/-- What a push that ended well was given of the application, and what each published property is
from then on. -/
theorem WritesSucceed.pushed_execution (writes : p.WritesSucceed) (enabled : p.config.isEnabled = true)
    (distinct : p.config.propertyNames.Nodup) {e : Execution} {st st' : SectionStack} {s s' : σ}
    {changed : Bool} (pushed : p.push (.ofExecution e) (st, s) = .ok changed (st', s')) :
    ∃ application, p.config.readApplication (p.application.outcome (p.asked st s)) = .ok application ∧
      (∀ f key, p.config.activeKey? f.role = some key → st'.latest key = e.get f) ∧
      ∀ key value, (some key, value) ∈ application → st'.latest key = value := by
  have hpush := (Work.ends_of_ok pushed).mp (writes.driven.push_reading enabled
    (.ofExecution e) st (s := s) trivial (cleared_of_push enabled pushed))
  rw [Config.reading_ofExecution] at hpush
  cases happlication : p.config.readApplication (p.application.outcome (p.asked st s)) with
  | error failure =>
    rw [happlication] at hpush
    exact absurd hpush.1 (by simp)
  | ok application =>
    rw [happlication] at hpush
    obtain ⟨-, rfl, -⟩ := hpush
    have hnames := Config.namesApplication_of_read happlication
    have hlatest : ∀ {role key value}, p.config.activeKey? role = some key →
        (some key, value) ∈ p.config.executionOffers e application →
          (st.offered (p.config.executionOffers e application)).2.latest key = value :=
      fun hkey ho => latest_offered_of_distinct
        (Config.executionOffers_distinct distinct e hnames) st ho
        (Config.not_isBlank_of_mem_propertyNames (Config.mem_propertyNames hkey))
    refine ⟨application, rfl, fun f key hkey => ?_, fun key value ho => ?_⟩
    · exact hlatest hkey (Config.mem_executionOffers hkey e application)
    · obtain ⟨role, hkey⟩ := hnames.role_of_mem ho
      exact hlatest hkey (Config.mem_executionOffers_of_mem ho e)

/-- While something is tracked, a push writes what it changes, and nothing else. -/
theorem WritesSucceed.push_writes (writes : p.WritesSucceed) (enabled : p.config.isEnabled = true)
    {view : ExecutionView ε} {st : SectionStack} (tracked : st.hasTracked = true) {s : σ}
    {offers : List Offer} (read : p.config.reading view (p.application.outcome s) = .ok offers) :
    (p.noted.push view).Ends (st, ([], s)) fun r t =>
      t.1 = (st.offered offers).2 ∧ t.2.1 = (changes (none, st) offers).map .write ∧
      (p.ReportsSucceed → ∃ changed, r = .ok changed) ∧
      ∀ changed, r = .ok changed → (changed = true ↔ changes (none, st) offers ≠ []) := by
  have hreading : p.noted.config.reading view
      (p.noted.application.outcome (p.noted.asked st ([], s))) = .ok offers := by
    have happlication : p.noted.application.outcome ([], s) = p.application.outcome s :=
      Work.outcome_beside p.application ([], s)
    rw [asked, if_pos tracked, happlication]
    exact read
  have hpush := writes.driven.noted.push_reading enabled view st (s := ([], s))
    trivial (Or.inl tracked)
  simp only [hreading, tracked, ↓reduceIte, List.foldl_nil, StoreUse.foldl_noteWrite,
    List.nil_append] at hpush
  refine hpush.imp ?_
  rintro r t ⟨hanswer, hstack, hseen⟩
  refine ⟨hstack, (Prod.mk.inj hseen).1, fun reports => ⟨_, hanswer.eq_ok reports.noted⟩, ?_⟩
  rintro changed rfl
  obtain rfl : changed = (st.offered offers).1.isSome := hanswer
  rw [(drafted_offered st offers).isSome_iff, ← map_fst_changes, ne_eq, List.map_eq_nil_iff]

/-- A pop writes what it takes back, and nothing else. -/
theorem WritesSucceed.pop_writes (writes : p.WritesSucceed) (enabled : p.config.isEnabled = true)
    (st : SectionStack) (s : σ) :
    p.noted.pop.Ends (st, ([], s)) fun _ t => t.2.1 = st.returned.map .write := by
  refine (writes.driven.noted.pop enabled st (s := ([], s)) trivial).imp ?_
  rintro _ t ⟨-, hseen, -⟩
  rw [StoreUse.foldl_noteWrite] at hseen
  exact (Prod.mk.inj hseen).1

/-- Once an execution was pushed, the push of one that was derived from it writes the fields that the
overrides have changed, each once and in order, and nothing else. It says that it has pushed something
if there is such a field, and the next pop then writes these fields as they were. -/
theorem derived_push_writes_differences (writes : p.WritesSucceed) (enabled : p.config.isEnabled = true)
    (distinct : p.config.propertyNames.Nodup) (e : Execution) (chain : List Overrides)
    {st st' : SectionStack} {s s' : σ} {changed : Bool}
    (pushed : p.push (.ofExecution e) (st, s) = .ok changed (st', s'))
    (tracked : st'.hasTracked = true)
    (answers : (p.config.activeKey? .applicationName).isSome = true →
      p.application.outcome s' = p.application.outcome (p.asked st s)) :
    let value := fun f => (lastOverride? chain f).getD (e.get f)
    let differing := p.config.differences e.get value
    (p.noted.push (.ofExecution (chain.foldl Execution.derive e))).Ends (st', ([], s')) fun r t =>
      t.2.1 = differing.map .write ∧
      (p.ReportsSucceed → ∃ again, r = .ok again) ∧
      (∀ again, r = .ok again → (again = true ↔ differing ≠ [])) ∧
      (r = .ok true → p.noted.pop.Ends (t.1, ([], t.2.2)) fun _ u =>
        u.2.1 = (p.config.differences value e.get).map .write) := by
  intro value differing
  let child := chain.foldl Execution.derive e
  obtain ⟨application, happlication, hfields, hnamed⟩ :=
    writes.pushed_execution enabled distinct pushed
  have hnames := Config.namesApplication_of_read happlication
  let offers := p.config.executionOffers child application
  have hdistinct : (offers.filterMap Prod.fst).Nodup :=
    Config.executionOffers_distinct distinct child hnames
  have hchanges : changes (none, st') offers = differing := by
    have hchild : child.get = value := funext (e.get_foldl_derive chain)
    rw [changes_executionOffers distinct e child hnames hfields hnamed, hchild]
  -- Nothing is cleared this time, so the resolver is asked where the first push has left off.
  have hreading : p.config.reading (.ofExecution child) (p.application.outcome s') = .ok offers := by
    rw [p.config.reading_congr _ answers, Config.reading_ofExecution, happlication]
    rfl
  refine (writes.push_writes enabled tracked hreading).imp ?_
  rintro r t ⟨hstack, hwrites, hreturns, hflag⟩
  rw [hchanges] at hwrites hflag
  refine ⟨hwrites, hreturns, hflag, fun htrue => ?_⟩
  refine (writes.pop_writes enabled t.1 t.2.2).imp ?_
  rintro _ u hu
  rw [hu, hstack, returned_offered hdistinct (by rw [hchanges]; exact (hflag true htrue).mp rfl),
    hchanges, Config.map_differences hfields]

end Projection

def approvalExecution : Execution where
  activityId := some "approve"
  tenantId := some "acme"
  businessKey := some "order"

/-- The activity goes back to what it was; no field has the name of the colour, and the business key
is not published. -/
def approvalOverrides : List Overrides :=
  [.ofPairs [("activity_id", some "check"), ("tenant_id", none), ("colour", some "red")],
    .ofPairs [("process_instance_id", some "7"), ("activity_id", some "approve")],
    .ofPairs [("business_key", none)]]

theorem Projection.derived_push_writes_differences_approval :
    ∃ changed st s,
      shopProjection.push (.ofExecution approvalExecution) (.empty, leftOverSetup.world) =
        .ok changed (st, s) ∧
      (shopProjection.noted.push (.ofExecution (approvalOverrides.foldl Execution.derive
          approvalExecution))).Ends (st, ([], s)) fun r t =>
        r = .ok true ∧ t.2.1 = [.put "processInstanceId" "7", .remove "tenantId"] ∧
          shopProjection.noted.pop.Ends (t.1, ([], t.2.2)) fun _ u =>
            u.2.1 = [.remove "processInstanceId", .put "tenantId" "acme"] := by
  have hreports : shopProjection.ReportsSucceed := Setup.reportsSucceed_projection _ 0 _
  have hok : ((shopProjection.push (.ofExecution approvalExecution)).outcome
      (.empty, leftOverSetup.world)).isOk = true := by decide +kernel
  obtain ⟨changed, ⟨st, s⟩, hpush⟩ := Work.exists_ok_of_isOk hok
  obtain ⟨hstack, hworld⟩ := Prod.mk.inj (Work.leaves_of_ok hpush).symm
  have htracked : st.hasTracked = true := by
    rw [hstack]
    decide +kernel
  have hsame : shopProjection.application.outcome s = shopProjection.application.outcome
      (shopProjection.asked .empty leftOverSetup.world) := by
    rw [hworld]
    decide +kernel
  refine ⟨changed, st, s, hpush, ?_⟩
  refine (derived_push_writes_differences owns_shopProjection.writesSucceed (by decide +kernel)
    (by decide +kernel) approvalExecution approvalOverrides hpush htracked fun _ => hsame).imp ?_
  rintro r t ⟨hwrites, hreturns, hflag, hpop⟩
  obtain ⟨again, rfl⟩ := hreturns hreports
  obtain rfl : again = true := (hflag again rfl).mpr (by decide +kernel)
  refine ⟨rfl, hwrites.trans (by decide +kernel), (hpop rfl).imp fun _ u hu => hu.trans ?_⟩
  decide +kernel

end LogContext
