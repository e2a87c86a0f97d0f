import LogContext.Proofs.FetchedSection
import LogContext.Proofs.LoggedRuns
import LogContext.Proofs.PushedMappings

namespace LogContext

namespace SectionStack

/-- The property that an offer changes, with its new value, if it changes one. -/
def change? (st : SectionStack) (offer : Offer) : Option (String × Option String) :=
  (st.changed? offer).map fun name => (name, offer.2)

/-- What offers change, in order, once for each change. -/
def changes : Option Nat × SectionStack → List Offer → List (String × Option String)
  | _, [] => []
  | draft, offer :: rest => (draft.2.change? offer).toList ++ changes (consider draft offer) rest

/-- What properties are when a frame was taken from each of these names, after each of them. -/
def restored : SectionStack → List String → List (String × Option String)
  | _, [] => []
  | st, name :: rest => (name, (st.dropFrame name).latest name) :: restored (st.dropFrame name) rest

/-- What a pop takes back, in order. -/
def returned (st : SectionStack) : List (String × Option String) :=
  match st.closeSection? with
  | none => []
  | some (closed, below) => below.restored closed.names

theorem allActive_nil {active : String → Prop} : AllActive active [] := fun _ ho =>
  absurd ho List.not_mem_nil

theorem map_fst_changes (draft : Option Nat × SectionStack) (offers : List Offer) :
    (changes draft offers).map Prod.fst = changedNames draft offers := by
  induction offers generalizing draft with
  | nil => rfl
  | cons offer rest ih =>
    rw [changes, changedNames, List.map_append, ih, change?]
    cases draft.2.changed? offer <;> rfl

theorem changedNames_sublist (draft : Option Nat × SectionStack) (offers : List Offer) :
    (changedNames draft offers).Sublist (offers.filterMap Prod.fst) := by
  induction offers generalizing draft with
  | nil => exact .refl _
  | cons offer rest ih =>
    rw [changedNames]
    cases hc : draft.2.changed? offer with
    | none =>
      refine (ih (consider draft offer)).trans ?_
      exact (List.sublist_cons_self offer rest).filterMap Prod.fst
    | some name =>
      rw [List.filterMap_cons_some (changed?_eq_some_iff.mp hc).1]
      exact (ih (consider draft offer)).cons_cons name

/-- If no name is offered twice, what changes is what differs from the values before the push. -/
theorem changes_of_distinct {offers : List Offer} (distinct : (offers.filterMap Prod.fst).Nodup)
    (draft : Option Nat × SectionStack) :
    changes draft offers = offers.filterMap draft.2.change? := by
  induction offers generalizing draft with
  | nil => rfl
  | cons offer rest ih =>
    obtain ⟨name?, value⟩ := offer
    cases name? with
    | none =>
      exact ih distinct draft
    | some name =>
      obtain ⟨hfresh, hdistinct⟩ := List.nodup_cons.mp distinct
      have hrest : ∀ other ∈ rest, (consider draft (some name, value)).2.change? other =
          draft.2.change? other := by
        intro other ho
        rw [change?, changed?_consider_of_ne, change?]
        exact fun heq => hfresh (List.mem_filterMap.mpr ⟨other, ho, heq.symm⟩)
      rw [changes, ih hdistinct, List.filterMap_congr hrest, List.filterMap_cons]
      cases draft.2.change? (some name, value) <;> rfl

/-- Names that a section lists once each go back to what they were below it. -/
theorem restored_of_nodup {names : List String} (distinct : names.Nodup) {st base : SectionStack}
    (h : framesBefore st.frames names = base.frames) :
    st.restored names = names.map fun name => (name, base.latest name) := by
  induction names generalizing st with
  | nil => rfl
  | cons name rest ih =>
    obtain ⟨hfresh, hrest⟩ := List.nodup_cons.mp distinct
    have hdropped : framesBefore (st.dropFrame name).frames rest = base.frames := by
      rw [← h]
      funext other
      rw [framesBefore, framesBefore, frames_dropFrame]
      by_cases heq : other = name
      · rw [if_pos heq, heq, List.count_eq_zero.mpr hfresh, List.count_cons_self,
          List.count_eq_zero.mpr hfresh, List.drop_zero, List.drop_one]
      · rw [if_neg heq, List.count_cons_of_ne (Ne.symm heq)]
    have hname : (st.dropFrame name).frames name = base.frames name := by
      rw [← hdropped, framesBefore, List.count_eq_zero.mpr hfresh, List.drop_zero]
    rw [restored, ih hrest hdropped, List.map_cons, latest, top?, hname, latest, top?]

/-- If no name is offered twice, a pop right after a push takes back what the push has changed. -/
theorem returned_offered {offers : List Offer} (distinct : (offers.filterMap Prod.fst).Nodup)
    {st : SectionStack} (changed : changes (none, st) offers ≠ []) :
    (st.offered offers).2.returned =
      (changes (none, st) offers).map fun change => (change.1, st.latest change.1) := by
  have hnames := map_fst_changes (none, st) offers
  have hopened : changedNames (none, st) offers ≠ [] := by
    rw [← hnames]
    exact fun h => changed (List.map_eq_nil_iff.mp h)
  obtain ⟨-, -, hmore⟩ := (drafted_offered st offers).opened hopened
  obtain ⟨below, hclose, -, htracked⟩ := closeSection?_eq_some hmore.sections
  have hframes : framesBefore below.frames (changedNames (none, st) offers) = st.frames := by
    rw [← hmore.frames]
    funext name
    rw [framesBefore, frames_of_closeSection? hclose, framesBefore]
  rw [returned, hclose]
  simp only
  rw [restored_of_nodup (distinct.sublist (changedNames_sublist _ _)) hframes, ← hnames,
    List.map_map]
  rfl

variable {ε σ ρ : Type} {act : ρ → String × Option String → ρ} {see : σ → ρ} {K : σ → Prop}
  {hook : Hook ε σ}

/-- While `K` holds, the hook neither fails nor uses the stack, and keeps `K`. What is seen of the
state beside the stack is acted on by what the hook is told. -/
def Traces (act : ρ → String × Option String → ρ) (see : σ → ρ) (K : σ → Prop) (hook : Hook ε σ) :
    Prop :=
  ∀ name value st s, K s →
    ∃ t, hook name value (st, s) = .ok () (st, t) ∧ see t = act (see s) (name, value) ∧ K t

theorem pushOffers_traces (traces : Traces act see K hook) (offers : List Offer)
    (draft : Option Nat × SectionStack) {s : σ} (hk : K s) :
    ∃ t, pushOffers hook draft.1 offers (draft.2, s) =
        .ok (offers.foldl consider draft).1 ((offers.foldl consider draft).2, t) ∧
      see t = (changes draft offers).foldl act (see s) ∧ K t := by
  induction offers generalizing draft s with
  | nil => exact ⟨s, rfl, rfl, hk⟩
  | cons offer rest ih =>
    have hfirst : ∃ t, pushOffer hook draft.1 offer (draft.2, s) =
          .ok (consider draft offer).1 ((consider draft offer).2, t) ∧
        see t = (draft.2.change? offer).toList.foldl act (see s) ∧ K t := by
      rw [pushOffer_apply, change?]
      cases hc : draft.2.changed? offer with
      | none => exact ⟨s, by rw [consider_of_none hc], rfl, hk⟩
      | some name =>
        obtain ⟨t, ht, hsee, hkt⟩ :=
          traces name offer.2 (draft.2.change draft.1 name offer.2).2 s hk
        exact ⟨t, by simp only [ht, consider_of_some hc], hsee, hkt⟩
    obtain ⟨t, ht, hsee, hkt⟩ := hfirst
    obtain ⟨u, hu, hsee', hku⟩ := ih (consider draft offer) hkt
    refine ⟨u, ?_, ?_, hku⟩
    · simp only [pushOffers, bind, EStateM.bind, ht, hu, List.foldl_cons]
    · rw [hsee', hsee, changes, List.foldl_append]

/-- A push tells its hook what it changes, and nothing else. -/
theorem push_traces (traces : Traces act see K hook) (offers : List Offer) (st : SectionStack)
    {s : σ} (hk : K s) :
    ∃ t, push hook offers (st, s) = .ok (st.offered offers).1.isSome ((st.offered offers).2, t) ∧
      see t = (changes (none, st) offers).foldl act (see s) ∧ K t := by
  obtain ⟨t, ht, hsee, hkt⟩ := pushOffers_traces traces offers (none, st) hk
  refine ⟨t, ?_, hsee, hkt⟩
  simp only [push, bind, EStateM.bind, ht]
  rfl

theorem removeNames_traces (traces : Traces act see K hook) (names : List String)
    (st : SectionStack) {s : σ} (hk : K s) :
    ∃ t, removeNames hook names (st, s) = .ok () (st.dropFrames names, t) ∧
      see t = (st.restored names).foldl act (see s) ∧ K t := by
  induction names generalizing st s with
  | nil => exact ⟨s, rfl, rfl, hk⟩
  | cons name rest ih =>
    obtain ⟨t, ht, hsee, hkt⟩ :=
      traces name ((st.dropFrame name).latest name) (st.dropFrame name) s hk
    obtain ⟨u, hu, hsee', hku⟩ := ih (st.dropFrame name) hkt
    refine ⟨u, ?_, ?_, hku⟩
    · have hfirst : removeName hook name (st, s) = .ok () (st.dropFrame name, t) := ht
      simp only [removeNames, bind, EStateM.bind, hfirst, hu]
      rfl
    · rw [hsee', hsee, restored, List.foldl_cons]

/-- A pop tells its hook what it takes back, and nothing else. -/
theorem pop_traces (traces : Traces act see K hook) (st : SectionStack) {s : σ} (hk : K s) :
    ∃ t, pop hook (st, s) = .ok () (st.popped, t) ∧
      see t = st.returned.foldl act (see s) ∧ K t := by
  rw [pop, Work.get_bind, popped, returned]
  cases st.closeSection? with
  | none => exact ⟨s, rfl, rfl, hk⟩
  | some pair => exact removeNames_traces traces pair.1.names pair.2 hk

end SectionStack

open SectionStack

namespace Projection

variable {ε σ ρ : Type} {p : Projection ε σ} {act : ρ → String × Option String → ρ} {see : σ → ρ}
  {K : σ → Prop} {stored : σ → Snapshot}

/-- While `K` holds, writes to the store end well, and what is seen is acted on by them and by nothing
else that the projection does. Resolver and reports may fail. All of these keep `K`. -/
structure Driven (p : Projection ε σ) (act : ρ → String × Option String → ρ) (see : σ → ρ)
    (K : σ → Prop) : Prop where
  write : ∀ name value s, K s →
    ∃ t, p.write name value s = .ok () t ∧ see t = act (see s) (name, value) ∧ K t
  application : ∀ r, p.application.Keeps fun s => see s = r ∧ K s
  report : ∀ message sections r, (p.report message sections).Keeps fun s => see s = r ∧ K s

theorem Owns.driven (owns : p.Owns stored) (respects : p.Respects K) :
    p.Driven (fun m change => Function.update m change.1 change.2) stored K where
  write := by
    intro name value s hk
    obtain ⟨t, ht, hstored⟩ := owns.write name value s
    exact ⟨t, ht, hstored, (Work.ends_of_ok ht).mp (respects.write name value s hk)⟩
  application := by
    rintro r s ⟨hsee, hk⟩
    exact Work.ends_leaves.mpr ⟨(owns.application s).trans hsee, respects.application.leaves hk⟩
  report := by
    rintro message sections r s ⟨hsee, hk⟩
    exact Work.ends_leaves.mpr
      ⟨(owns.report message sections s).trans hsee, (respects.report message sections).leaves hk⟩

end Projection

/-- The use that writes a value under a key; nothing is written as an absent key. -/
def StoreUse.write : String × Option String → StoreUse
  | (key, none) => .remove key
  | (key, some value) => .put key value

/-- Writes are noted one after the other, beside what they do. -/
def StoreUse.noteWrite {ρ : Type} (act : ρ → String × Option String → ρ)
    (seen : List StoreUse × ρ) (change : String × Option String) : List StoreUse × ρ :=
  (seen.1 ++ [.write change], act seen.2 change)

theorem StoreUse.foldl_noteWrite {ρ : Type} (act : ρ → String × Option String → ρ)
    (changes : List (String × Option String)) (seen : List StoreUse × ρ) :
    changes.foldl (noteWrite act) seen = (seen.1 ++ changes.map .write, changes.foldl act seen.2) := by
  induction changes generalizing seen with
  | nil => simp
  | cons change rest ih => rw [List.foldl_cons, ih]; simp [noteWrite]

/-- What a clearing changes. -/
def Config.clearing (config : Config) : List (String × Option String) :=
  config.propertyNames.map fun key => (key, none)

theorem Config.foldl_clearing (config : Config) (m : Snapshot) (key : String) :
    config.clearing.foldl (fun m change => Function.update m change.1 change.2) m key =
      if key ∈ config.propertyNames then none else m key := by
  rw [clearing]
  induction config.propertyNames generalizing m with
  | nil => rfl
  | cons first rest ih =>
    rw [List.map_cons, List.foldl_cons, ih, Function.update_apply]
    by_cases hrest : key ∈ rest <;> by_cases hfirst : key = first <;> simp [hrest, hfirst]

namespace Projection

variable {ε σ ρ : Type} {p : Projection ε σ} {act : ρ → String × Option String → ρ} {see : σ → ρ}
  {K : σ → Prop}

theorem write_noted (p : Projection ε σ) (name : String) (value : Option String) :
    p.noted.write name value = (StoreUse.write (name, value)).noting (p.write name value) := by
  cases value <;> rfl

/-- With the uses of the store in sight, a projection is driven by its writes all the same. -/
theorem Driven.noted (driven : p.Driven act see K) :
    p.noted.Driven (StoreUse.noteWrite act) (fun s => (s.1, see s.2)) fun s => K s.2 where
  write := by
    intro name value s hk
    obtain ⟨t, ht, hsee, hkt⟩ := driven.write name value s.2 hk
    refine ⟨(s.1 ++ [.write (name, value)], t), ?_, ?_, hkt⟩
    · rw [write_noted, StoreUse.noting, Work.modify_bind]
      simp only [Work.beside, ht]
    · rw [StoreUse.noteWrite, ← hsee]
  application := by
    rintro _ s ⟨rfl, hk⟩
    refine Work.ends_beside.mpr ((driven.application (see s.2) s.2 ⟨rfl, hk⟩).imp ?_)
    rintro _ t ⟨hseen, hkt⟩
    exact ⟨Prod.ext rfl hseen, hkt⟩
  report := by
    rintro message sections _ s ⟨rfl, hk⟩
    refine Work.ends_beside.mpr ((driven.report message sections (see s.2) s.2 ⟨rfl, hk⟩).imp ?_)
    rintro _ t ⟨hseen, hkt⟩
    exact ⟨Prod.ext rfl hseen, hkt⟩

/-- A push that changes something or nothing answers so, unless its report fails. -/
def Answers (p : Projection ε σ) (changed : Bool) : Except ε Bool → Prop
  | .ok answer => answer = changed
  | .error _ => ¬ p.ReportsSucceed

theorem Answers.eq_ok {changed : Bool} {r : Except ε Bool} (h : p.Answers changed r)
    (reports : p.ReportsSucceed) : r = .ok changed := by
  cases r with
  | ok answer => exact congrArg _ h
  | error e => exact absurd reports h

namespace Driven

theorem traces_storeHook (driven : p.Driven act see K) : Traces act see K p.storeHook := by
  intro name value st s hk
  obtain ⟨t, ht, hsee, hkt⟩ := driven.write name value s hk
  exact ⟨t, by simp only [storeHook, Work.beside, ht], hsee, hkt⟩

theorem removeAll (driven : p.Driven act see K) (keys : List String) {s : σ} (hk : K s) :
    ∃ t, p.removeAll keys s = .ok () t ∧
      see t = (keys.map fun key => (key, none)).foldl act (see s) ∧ K t := by
  induction keys generalizing s with
  | nil => exact ⟨s, rfl, rfl, hk⟩
  | cons key rest ih =>
    obtain ⟨t, ht, hsee, hkt⟩ := driven.write key none s hk
    obtain ⟨u, hu, hsee', hku⟩ := ih hkt
    refine ⟨u, ?_, ?_, hku⟩
    · have hfirst : p.remove key s = .ok () t := ht
      simp only [Projection.removeAll, bind, EStateM.bind, hfirst, hu]
    · rw [hsee', hsee, List.map_cons, List.foldl_cons]

theorem clear (driven : p.Driven act see K) {s : σ} (hk : K s) :
    p.clear.Ends s fun _ t => see t = p.config.clearing.foldl act (see s) ∧ K t := by
  obtain ⟨t, ht, hsee, hkt⟩ := driven.removeAll p.config.propertyNames hk
  rw [Projection.clear, Work.ends_bind, Work.ends_of_ok ht]
  simp only
  split
  next => exact driven.report clearedMessage none _ t ⟨hsee, hkt⟩
  next => exact ⟨hsee, hkt⟩

theorem reportSections (driven : p.Driven act see K) (message : String) {r : ρ}
    (st : SectionStack) {s : σ} (hsee : see s = r) (hk : K s) :
    (p.reportSections message).Ends (st, s) fun _ t => t.1 = st ∧ see t.2 = r ∧ K t.2 := by
  rw [Projection.reportSections, Work.ends_bind, Work.ends_get]
  refine Work.ends_beside.mpr
    ((driven.report message (some st.sectionCount) r s ⟨hsee, hk⟩).imp fun _ t ht => ⟨rfl, ht⟩)

theorem readOffers (driven : p.Driven act see K) (view : ExecutionView ε) (tracked : Bool) {s : σ}
    (hk : K s) :
    (p.readOffers view tracked).Ends s fun r t =>
      (see t = (if tracked then [] else p.config.clearing).foldl act (see s) ∧ K t) ∧
        ∀ offers, r = .ok offers → AllActive p.Active offers := by
  have hread : ∀ r, (p.offers view).Yields (fun s => see s = r ∧ K s) (AllActive p.Active) := by
    intro r
    refine (offers_by_role (driven.application r) view).imp ?_
    rintro offers ⟨value, hroles⟩ offer ho key hkey
    obtain ⟨role, rfl⟩ := hroles offer ho
    exact Config.mem_propertyNames hkey
  cases tracked with
  | true => exact hread (see s) s ⟨rfl, hk⟩
  | false =>
    refine Work.ends_bind.mpr ((driven.clear hk).imp ?_)
    intro r t ht
    cases r with
    | ok => exact hread _ t ht
    | error e => exact ⟨ht, fun _ ho => nomatch ho⟩

/-- What was read is pushed as far as it changes anything, also if the report fails. -/
theorem pushRead (driven : p.Driven act see K) (offers : List Offer) (st : SectionStack) {s : σ}
    (hk : K s) :
    (p.pushRead offers).Ends (st, s) fun _ t => t.1 = (st.offered offers).2 ∧
      see t.2 = (changes (none, st) offers).foldl act (see s) ∧ K t.2 := by
  obtain ⟨t, ht, hsee, hkt⟩ := push_traces driven.traces_storeHook offers st hk
  rw [Projection.pushRead, Work.ends_bind, Work.ends_of_ok ht]
  cases (st.offered offers).1.isSome with
  | false => exact ⟨rfl, hsee, hkt⟩
  | true =>
    refine Work.ends_bind.mpr ((driven.reportSections pushedMessage _ hsee hkt).imp ?_)
    intro r u hu
    cases r <;> exact hu

theorem pushRead_answers (driven : p.Driven act see K) (offers : List Offer) (st : SectionStack)
    {s : σ} (hk : K s) :
    (p.pushRead offers).Ends (st, s) fun r _ => p.Answers (st.offered offers).1.isSome r := by
  obtain ⟨t, ht, -⟩ := push_traces driven.traces_storeHook offers st hk
  rw [Projection.pushRead, Work.ends_bind, Work.ends_of_ok ht]
  cases (st.offered offers).1.isSome with
  | false => exact rfl
  | true =>
    refine Work.ends_bind.mpr (Work.ends_of_forall (fun _ u _ => rfl) fun e u hfails reports => ?_)
    obtain ⟨v, hreport⟩ := reports pushedMessage (some (st.offered offers).2.sectionCount) t
    simp only [Projection.reportSections, Work.get_bind, Work.beside, hreport] at hfails
    cases hfails

/-- However a push ends, it has written what some offers under active keys change, after it has
cleared the store for the first of all values. -/
theorem push (driven : p.Driven act see K) (view : ExecutionView ε) (st : SectionStack) {s : σ}
    (hk : K s) :
    (p.push view).Ends (st, s) fun _ t => ∃ offers, AllActive p.Active offers ∧
      t.1 = (st.offered offers).2 ∧ K t.2 ∧ see t.2 = (changes (none, st) offers).foldl act
        ((if st.hasTracked then [] else p.config.clearing).foldl act (see s)) := by
  by_cases henabled : p.config.isEnabled = true
  case neg =>
    have hempty : p.config.clearing = [] :=
      List.map_eq_nil_iff.mpr (by simpa [Config.isEnabled] using henabled)
    rw [push_of_not_isEnabled henabled]
    refine ⟨[], allActive_nil, rfl, hk, ?_⟩
    rw [hempty, ite_self]
    rfl
  rw [ends_push henabled]
  refine (driven.readOffers view st.hasTracked hk).imp ?_
  rintro r t ⟨⟨hsee, hkt⟩, hactive⟩
  cases r with
  | error e => exact ⟨[], allActive_nil, rfl, hkt, hsee⟩
  | ok offers =>
    refine (driven.pushRead offers st hkt).imp ?_
    rintro _ u ⟨hstack, hseen, hku⟩
    exact ⟨offers, hactive offers rfl, hstack, hku, hseen.trans (by rw [hsee])⟩

/-- However a pop ends, it has written what the stack has taken back. -/
theorem pop (driven : p.Driven act see K) (enabled : p.config.isEnabled = true) (st : SectionStack)
    {s : σ} (hk : K s) :
    p.pop.Ends (st, s) fun _ t =>
      t.1 = st.popped ∧ see t.2 = st.returned.foldl act (see s) ∧ K t.2 := by
  obtain ⟨t, ht, hsee, hkt⟩ := pop_traces driven.traces_storeHook st hk
  rw [Projection.pop, if_pos enabled, Work.ends_bind, Work.ends_get]
  simp only
  rw [Work.ends_bind, Work.ends_of_ok ht]
  simp only
  split
  next => exact driven.reportSections poppedMessage _ hsee hkt
  next => exact ⟨rfl, hsee, hkt⟩

end Driven

end Projection

end LogContext
