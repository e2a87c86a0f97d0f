import LogContext.Proofs.ActiveKeys
import LogContext.Proofs.ProjectionRun
import LogContext.Proofs.QuietCalls
import LogContext.Proofs.SectionBracket
import Mathlib.Algebra.Order.BigOperators.Group.List
import Mathlib.Algebra.Order.Group.Nat
import Mathlib.Data.List.Pairwise

namespace LogContext

namespace SectionStack

/-- How often a property changes that is set to these values, one after the other. -/
def valueChanges : Option String → List (Option String) → Nat
  | _, [] => 0
  | current, value :: rest => (if current = value then 0 else 1) + valueChanges value rest

/-- The values that are offered for a property, in order; a blank name is no property. -/
def valuesFor (name : String) (offers : List Offer) : List (Option String) :=
  (offers.filter fun offer => offer.1 = some name ∧ isBlank name = false).map Prod.snd

/-- No property is offered with two different values. -/
def SingleValued (offers : List Offer) : Prop :=
  ∀ name value value', (some name, value) ∈ offers → (some name, value') ∈ offers →
    isBlank name = false → value = value'

theorem singleValued_of_distinct {offers : List Offer} (distinct : (offers.map Prod.fst).Nodup) :
    SingleValued offers := fun _ _ _ hm hm' _ =>
  congrArg Prod.snd (List.inj_on_of_nodup_map distinct hm hm' rfl)

theorem valueChanges_eq_zero {value : Option String} {values : List (Option String)}
    (h : ∀ other ∈ values, other = value) : valueChanges value values = 0 := by
  induction values with
  | nil => rfl
  | cons first rest ih =>
    obtain rfl := h first List.mem_cons_self
    rw [valueChanges, if_pos rfl, ih fun other ho => h other (List.mem_cons_of_mem _ ho)]

theorem valueChanges_le_one {values : List (Option String)}
    (h : ∀ value ∈ values, ∀ value' ∈ values, value = value') (current : Option String) :
    valueChanges current values ≤ 1 := by
  cases values with
  | nil => exact Nat.zero_le 1
  | cons first rest =>
    rw [valueChanges, valueChanges_eq_zero fun other ho =>
      h other (List.mem_cons_of_mem _ ho) first List.mem_cons_self]
    split <;> omega

theorem SingleValued.valueChanges_le_one {offers : List Offer} (h : SingleValued offers)
    (current : Option String) (name : String) :
    valueChanges current (valuesFor name offers) ≤ 1 := by
  refine SectionStack.valueChanges_le_one (fun value hv value' hv' => ?_) current
  simp only [valuesFor, List.mem_map, List.mem_filter, decide_eq_true_eq] at hv hv'
  obtain ⟨⟨_, value⟩, ⟨hm, rfl, husable⟩, rfl⟩ := hv
  obtain ⟨⟨_, value'⟩, ⟨hm', rfl, _⟩, rfl⟩ := hv'
  exact h name value value' hm hm' husable

theorem count_changed? (st : SectionStack) (offer : Offer) (name : String) :
    (st.changed? offer).toList.count name =
      if offer.1 = some name ∧ isBlank name = false ∧ st.latest name ≠ offer.2 then 1 else 0 := by
  simp only [← changed?_eq_some_iff]
  cases st.changed? offer with
  | none => rfl
  | some changed => simp only [Option.toList_some, List.count_singleton, beq_iff_eq, Option.some.injEq]

/-- A push lists a property once for each change that the offers make to its value. -/
theorem count_changedNames (draft : Option Nat × SectionStack) (offers : List Offer) (name : String) :
    (changedNames draft offers).count name =
      valueChanges (draft.2.latest name) (valuesFor name offers) := by
  induction offers generalizing draft with
  | nil => rfl
  | cons offer rest ih =>
    rw [changedNames, List.count_append, ih, latest_consider, count_changed?, valuesFor, valuesFor,
      List.filter_cons]
    by_cases hoffer : offer.1 = some name ∧ isBlank name = false
    · obtain ⟨hname, husable⟩ := hoffer
      simp only [hname, husable, and_self, true_and, decide_true, ↓reduceIte, List.map_cons,
        valueChanges]
      by_cases heq : draft.2.latest name = offer.2 <;> simp [heq]
    · rw [if_neg hoffer, if_neg fun h => hoffer ⟨h.1, h.2.1⟩, if_neg (by simpa using hoffer),
        Nat.zero_add]

/-- The push of these offers opens the section, on top of those that are open before. -/
structure Opens (st : SectionStack) (offers : List Offer) (opened : Section)
    (after : SectionStack) : Prop where
  serial : opened.serial = st.issued
  sections : after.sections = opened :: st.sections
  count : ∀ name, opened.names.count name = valueChanges (st.latest name) (valuesFor name offers)

/-- A push opens a section unless it changes nothing at all. -/
theorem offered_opens (st : SectionStack) (offers : List Offer) :
    st.offered offers = (none, st) ∨
      (st.offered offers).1.isSome = true ∧ ∃ opened, st.Opens offers opened (st.offered offers).2 := by
  have hdrafted := drafted_offered st offers
  by_cases hnone : changedNames (none, st) offers = []
  · exact Or.inl (hdrafted.untouched hnone)
  · exact Or.inr ⟨hdrafted.isSome_iff.mpr hnone, _, rfl, (hdrafted.opened hnone).2.2.sections,
      count_changedNames (none, st) offers⟩

theorem Opens.nodup {st after : SectionStack} {offers : List Offer} {opened : Section}
    (h : st.Opens offers opened after) (single : SingleValued offers) : opened.names.Nodup := by
  refine List.nodup_iff_count_le_one.mpr fun name => ?_
  rw [h.count]
  exact single.valueChanges_le_one _ name

/-- A section that is open after a push was open before it or was opened by it. -/
theorem mem_sections_offered {st : SectionStack} {offers : List Offer} {opened : Section}
    (h : opened ∈ (st.offered offers).2.sections) :
    opened ∈ st.sections ∨ (st.offered offers).1.isSome = true ∧
      st.Opens offers opened (st.offered offers).2 := by
  rcases offered_opens st offers with hnone | ⟨hsome, first, hfirst⟩
  · rw [hnone] at h
    exact Or.inl h
  · rw [hfirst.sections] at h
    rcases List.mem_cons.mp h with rfl | hold
    · exact Or.inr ⟨hsome, hfirst⟩
    · exact Or.inl hold

theorem sections_popped (st : SectionStack) : st.popped.sections = st.sections.tail := by
  rw [popped]
  cases hc : st.closeSection? with
  | none =>
    cases hs : st.sections with
    | nil => rfl
    | cons s rest =>
      obtain ⟨_, hsome, _⟩ := closeSection?_eq_some hs
      rw [hc] at hsome
      cases hsome
  | some pair => rw [sections_dropFrames, sections_of_closeSection? hc, List.tail_cons]

theorem mem_sections_popped {st : SectionStack} {opened : Section}
    (h : opened ∈ st.popped.sections) : opened ∈ st.sections := by
  rw [sections_popped] at h
  exact List.mem_of_mem_tail h

/-- The frames of each property are those that the open sections list. -/
def Covered (st : SectionStack) : Prop := ∀ name, st.depth name = st.listings name

theorem covered_empty : empty.Covered := fun _ => rfl

theorem Covered.offered {st : SectionStack} (h : st.Covered) (offers : List Offer) :
    (st.offered offers).2.Covered := by
  have hdrafted := drafted_offered st offers
  intro name
  by_cases hnone : changedNames (none, st) offers = []
  · rw [hdrafted.untouched hnone]
    exact h name
  · rw [hdrafted.depth, h name, listings, listings, openNames, openNames,
      (hdrafted.opened hnone).2.2.sections, List.map_cons, List.flatten_cons, List.count_append,
      Nat.add_comm]

theorem Covered.popped {st : SectionStack} (h : st.Covered) : st.popped.Covered := by
  intro name
  rw [SectionStack.popped]
  cases hc : st.closeSection? with
  | none => exact h name
  | some pair =>
    have hlistings := listings_of_closeSection? hc name
    have hdepth : (pair.2.dropFrames pair.1.names).depth name =
        st.depth name - pair.1.names.count name := by
      rw [← depth_of_closeSection? hc name, depth, frames_dropFrames, List.length_drop, depth]
    simp only
    rw [hdepth, h name, hlistings, Nat.add_sub_cancel_left]
    exact (listings_eq_of_sections (sections_dropFrames _ _) name).symm

theorem Covered.called {st : SectionStack} (h : st.Covered) (call : StackCall) :
    (st.called call).2.Covered := by
  cases call with
  | push offers => exact h.offered offers
  | pop => exact h.popped

/-- No open section lists a property twice. -/
def ListsOnce (st : SectionStack) : Prop := ∀ opened ∈ st.sections, opened.names.Nodup

theorem ListsOnce.listings_le {st : SectionStack} (h : st.ListsOnce) (name : String) :
    st.listings name ≤ st.sectionCount := by
  rw [listings, openNames, List.count_flatten, List.map_map, sectionCount]
  have hle := List.sum_le_card_nsmul (st.sections.map (List.count name ∘ Section.names)) 1 ?_
  · simpa using hle
  · intro n hn
    obtain ⟨s, hs, rfl⟩ := List.mem_map.mp hn
    exact List.nodup_iff_count_le_one.mp (h s hs) name

theorem ListsOnce.depth_le {st : SectionStack} (h : st.ListsOnce) (covered : st.Covered)
    (name : String) : st.depth name ≤ st.sectionCount := by
  rw [covered name]
  exact h.listings_le name

/-- Each open section has the property, and all frames are listed. If what is offered is single-valued,
no section lists a property twice, so that no property has more frames than there are sections. -/
structure Accounted (st : SectionStack) (opened : Section → Prop) (single : Prop) : Prop where
  opened : ∀ s ∈ st.sections, opened s
  depth_eq : ∀ name, st.depth name = st.listings name
  nodup : single → ∀ s ∈ st.sections, s.names.Nodup
  depth_le : single → ∀ name, st.depth name ≤ st.sectionCount

theorem Covered.accounted {st : SectionStack} (h : st.Covered) {opened : Section → Prop}
    {single : Prop} (hopened : ∀ s ∈ st.sections, opened s) (honce : single → st.ListsOnce) :
    st.Accounted opened single :=
  ⟨hopened, h, honce, fun hsingle => (honce hsingle).depth_le h⟩

/-- Every open section was open before the calls or was opened by a push among them. -/
theorem opened_of_mem_calledAll (calls : List StackCall) (st : SectionStack) :
    ∀ opened ∈ (st.calledAll calls).2.sections, opened ∈ st.sections ∨
      ∃ before offers after, calls = before ++ .push offers :: after ∧
        ((st.calledAll before).2.offered offers).1.isSome = true ∧
        (st.calledAll before).2.Opens offers opened ((st.calledAll before).2.offered offers).2 := by
  induction calls generalizing st with
  | nil => exact fun opened ho => Or.inl ho
  | cons call rest ih =>
    intro opened ho
    rcases ih (st.called call).2 opened ho with hold | ⟨before, offers, after, rfl, hopens⟩
    · cases call with
      | push offers =>
        exact (mem_sections_offered hold).imp_right fun hopens => ⟨[], offers, rest, rfl, hopens⟩
      | pop => exact Or.inl (mem_sections_popped hold)
    · exact Or.inr ⟨call :: before, offers, after, rfl, hopens⟩

theorem covered_calledAll {st : SectionStack} (h : st.Covered) (calls : List StackCall) :
    (st.calledAll calls).2.Covered := by
  induction calls generalizing st with
  | nil => exact h
  | cons call rest ih => exact ih (h.called call)

theorem listsOnce_calledAll {calls : List StackCall}
    (single : ∀ offers, .push offers ∈ calls → SingleValued offers) :
    (empty.calledAll calls).2.ListsOnce := by
  intro opened ho
  rcases opened_of_mem_calledAll calls empty opened ho with hm | ⟨before, offers, after, rfl, _, hopens⟩
  · exact nomatch hm
  · exact hopens.nodup (single offers (by simp))

end SectionStack

open SectionStack

/-- A push among the calls opened the section. -/
def StackCall.Opened {ε σ : Type} (hooks : HookKind → Hook ε σ) (calls : List StackCall) (s : σ)
    (opened : Section) : Prop :=
  ∃ before offers after answers st t st' t', calls = before ++ .push offers :: after ∧
    StackCall.runAll hooks before (.empty, s) = .ok answers (st, t) ∧
    SectionStack.push (hooks .push) offers (st, t) = .ok true (st', t') ∧
    st.Opens offers opened st'

/-- All sections that calls leave open are accounted for. -/
theorem StackCall.runAll_accounted {ε σ : Type} {hooks : HookKind → Hook ε σ}
    (quiet : ∀ kind, Quiet (hooks kind)) (calls : List StackCall) (s : σ) :
    ∃ answers st t, StackCall.runAll hooks calls (.empty, s) = .ok answers (st, t) ∧
      st.Accounted (StackCall.Opened hooks calls s)
        (∀ offers, .push offers ∈ calls → SingleValued offers) := by
  obtain ⟨t, hrun⟩ := StackCall.runAll_quiet quiet calls empty s
  refine ⟨_, _, t, hrun, (covered_calledAll covered_empty calls).accounted (fun opened ho => ?_)
    listsOnce_calledAll⟩
  rcases opened_of_mem_calledAll calls empty opened ho with
    hm | ⟨before, offers, after, hcalls, hsome, hopens⟩
  · exact nomatch hm
  · obtain ⟨u, hbefore⟩ := StackCall.runAll_quiet quiet before empty s
    obtain ⟨v, hpush⟩ := push_quiet (quiet .push) offers (empty.calledAll before).2 u
    rw [hsome] at hpush
    exact ⟨before, offers, after, _, _, u, _, v, hcalls, hbefore, hpush, hopens⟩

theorem Config.eq_of_activeKey? {config : Config} (distinct : config.propertyNames.Nodup)
    {role role' : Role} {key : String} (h : config.activeKey? role = some key)
    (h' : config.activeKey? role' = some key) : role = role' := by
  by_contra hne
  have hpairs := List.pairwise_filterMap.mp distinct
  have hsymm : Std.Symm fun role role' => ∀ key, config.activeKey? role = some key →
      ∀ key', config.activeKey? role' = some key' → key ≠ key' :=
    ⟨fun _ _ hdiffer key hk key' hk' => (hdiffer key' hk' key hk).symm⟩
  exact hpairs.forall (Role.mem_all role) (Role.mem_all role') hne key h key h' rfl

namespace Projection

variable {ε σ : Type} {p : Projection ε σ}

theorem offers_singleValued (distinct : p.config.propertyNames.Nodup) (view : ExecutionView ε) :
    (p.offers view).Yields (fun _ => True) SingleValued := by
  refine (offers_by_role p.respects_true.application view).imp ?_
  rintro offers ⟨value, hroles⟩ name v v' hm hm' _
  obtain ⟨role, hrole⟩ := hroles _ hm
  obtain ⟨role', hrole'⟩ := hroles _ hm'
  obtain ⟨hkey, rfl⟩ := Prod.mk.inj hrole
  obtain ⟨hkey', rfl⟩ := Prod.mk.inj hrole'
  rw [Config.eq_of_activeKey? distinct hkey hkey']

theorem keeps_reportSections (P : SectionStack → Prop) (message : String) :
    (p.reportSections message).Keeps fun s => P s.1 :=
  Work.keeps_get.bind fun _ => Work.keeps_beside _

/-- A push of an execution is one of the offers that it reads, if it gets to push any. -/
theorem ends_push_quiet (quiet : Quiet p.storeHook) (view : ExecutionView ε) (st : SectionStack)
    (s : σ) :
    (p.push view).Ends (st, s) fun _ t => t.1 = st ∨ ∃ offers u,
      p.readOffers view st.hasTracked s = .ok offers u ∧ t.1 = (st.offered offers).2 := by
  by_cases henabled : p.config.isEnabled = true
  case neg =>
    rw [push_of_not_isEnabled henabled]
    exact Or.inl rfl
  rw [ends_push henabled]
  refine Work.ends_of_forall (fun offers u hread => ?_) fun e t _ => Or.inl rfl
  obtain ⟨v, hpush⟩ := SectionStack.push_quiet quiet offers st u
  have hstack : (p.pushRead offers).Ends (st, u) fun _ t => t.1 = (st.offered offers).2 := by
    rw [pushRead, Work.ends_bind, Work.ends_of_ok hpush]
    cases (st.offered offers).1.isSome with
    | false => exact rfl
    | true =>
      exact ((keeps_reportSections (· = (st.offered offers).2) pushedMessage).bind fun _ =>
        Work.keeps_pure _) _ rfl
  exact hstack.imp fun _ t ht => Or.inr ⟨offers, u, hread, ht⟩

theorem ends_pop_quiet (quiet : Quiet p.storeHook) (st : SectionStack) (s : σ) :
    p.pop.Ends (st, s) fun _ t => t.1 = st ∨ t.1 = st.popped := by
  rw [Projection.pop]
  by_cases henabled : p.config.isEnabled = true
  case neg =>
    rw [if_neg henabled]
    exact Or.inl rfl
  obtain ⟨v, hpop⟩ := SectionStack.pop_quiet quiet st s
  rw [if_pos henabled, Work.ends_bind, Work.ends_get]
  simp only
  rw [Work.ends_bind, Work.ends_of_ok hpop]
  simp only
  split
  next =>
    exact (keeps_reportSections (fun t => t = st ∨ t = st.popped) poppedMessage) _ (Or.inr rfl)
  next => exact Or.inr rfl

theorem ends_fetch_quiet (p : Projection ε σ) (st : SectionStack) (s : σ) :
    p.fetch.Ends (st, s) fun _ t => t.1 = st ∨ ∃ offers u,
      p.storedOffers p.config.propertyNames s = .ok offers u ∧ t.1 = (st.offered offers).2 := by
  by_cases henabled : p.config.isEnabled = true
  case neg =>
    rw [Projection.fetch, if_neg henabled]
    exact Or.inl rfl
  rw [Projection.fetch, if_pos henabled, Work.ends_bind, Work.ends_beside]
  refine Work.ends_of_forall (fun offers u hread => ?_) fun e u _ => Or.inl rfl
  obtain ⟨v, hpush⟩ := push_quiet (quiet_silent (ε := ε)) offers st u
  simp only
  rw [Work.ends_bind, Work.ends_of_ok hpush]
  cases (st.offered offers).1.isSome with
  | false => exact Or.inr ⟨offers, u, hread, rfl⟩
  | true =>
    refine (((keeps_reportSections (· = (st.offered offers).2) fetchedMessage).bind fun _ =>
      Work.keeps_pure _) _ rfl).imp ?_
    exact fun _ t ht => Or.inr ⟨offers, u, hread, ht⟩

theorem sync_keeps_stack (p : Projection ε σ) (st : SectionStack) :
    p.sync.Keeps fun t => t.1 = st := by
  have hwrites : ∀ keys, (p.writeLatest keys).Keeps fun t => t.1 = st := by
    intro keys
    induction keys with
    | nil => exact Work.keeps_pure _
    | cons key rest ih =>
      refine Work.keeps_get.bind fun t => Work.Keeps.bind ?_ fun _ => ih
      exact Work.keeps_beside (P := (· = st)) (p.write key _)
  refine Work.keeps_get.bind fun t => ?_
  simp only
  split
  next => exact hwrites _
  next => exact Work.keeps_pure _

/-- What a call offers in a state, if it comes to offer anything. -/
def Offered (p : Projection ε σ) (moment : ProjectionMoment σ) :
    ProjectionCall ε → List Offer → Prop
  | .push view, offers =>
    ∃ t, p.readOffers view moment.stack.hasTracked moment.shared = .ok offers t
  | .fetch, offers => ∃ t, p.storedOffers p.config.propertyNames moment.shared = .ok offers t
  | .pop, _ | .sync, _ | .clear, _ => False

/-- No call does anything to the stack but what a push of its offers or a pop makes of it. -/
theorem ends_call_quiet (quiet : Quiet p.storeHook) (call : ProjectionCall ε)
    (moment : ProjectionMoment σ) :
    (call.run p).Ends (moment.stack, moment.shared) fun _ t => t.1 = moment.stack ∨
      (∃ offers, p.Offered moment call offers ∧ t.1 = (moment.stack.offered offers).2) ∨
      t.1 = moment.stack.popped := by
  cases call with
  | push view =>
    refine Work.ends_map.mpr ((ends_push_quiet quiet view moment.stack moment.shared).imp ?_)
    exact fun _ t ht => ht.imp_right fun ⟨offers, u, hread, hstack⟩ =>
      Or.inl ⟨offers, ⟨u, hread⟩, hstack⟩
  | pop =>
    refine Work.ends_map.mpr ((ends_pop_quiet quiet moment.stack moment.shared).imp ?_)
    exact fun _ t ht => ht.imp_right Or.inr
  | fetch =>
    refine Work.ends_map.mpr ((p.ends_fetch_quiet moment.stack moment.shared).imp ?_)
    exact fun _ t ht => ht.imp_right fun ⟨offers, u, hread, hstack⟩ =>
      Or.inl ⟨offers, ⟨u, hread⟩, hstack⟩
  | sync =>
    have hsync := p.sync_keeps_stack moment.stack (moment.stack, moment.shared) rfl
    exact Work.ends_map.mpr (hsync.imp fun _ t ht => Or.inl ht)
  | clear =>
    have hclear := Work.keeps_beside (P := (· = moment.stack)) p.clear (moment.stack, moment.shared) rfl
    exact Work.ends_map.mpr (hclear.imp fun _ t ht => Or.inl ht)

theorem stack_next (quiet : Quiet p.storeHook) (moment : ProjectionMoment σ)
    (call : ProjectionCall ε) :
    (moment.next p call).stack = moment.stack ∨
      (∃ offers, p.Offered moment call offers ∧
        (moment.next p call).stack = (moment.stack.offered offers).2) ∨
      (moment.next p call).stack = moment.stack.popped :=
  Work.ends_leaves.mp (ends_call_quiet quiet call moment)

theorem covered_next (quiet : Quiet p.storeHook) {moment : ProjectionMoment σ}
    (h : moment.stack.Covered) (call : ProjectionCall ε) : (moment.next p call).stack.Covered := by
  rcases stack_next quiet moment call with hsame | ⟨offers, _, hstack⟩ | hstack
  · rw [hsame]
    exact h
  · rw [hstack]
    exact h.offered offers
  · rw [hstack]
    exact h.popped

/-- A section that is open after a call was open before it or was opened by it. -/
theorem mem_sections_next (quiet : Quiet p.storeHook) {moment : ProjectionMoment σ}
    {call : ProjectionCall ε} {opened : Section} (h : opened ∈ (moment.next p call).stack.sections) :
    opened ∈ moment.stack.sections ∨ ∃ offers, p.Offered moment call offers ∧
      moment.stack.Opens offers opened (moment.next p call).stack := by
  rcases stack_next quiet moment call with hsame | ⟨offers, hoffered, hstack⟩ | hstack
  · rw [hsame] at h
    exact Or.inl h
  · rw [hstack] at h ⊢
    exact (mem_sections_offered h).imp_right fun hopens => ⟨offers, hoffered, hopens.2⟩
  · rw [hstack] at h
    exact Or.inl (mem_sections_popped h)

/-- From the `j`-th of these states a call led to the next one, and made these offers. -/
structure OffersAt (p : Projection ε σ) (calls : ProjectionCall ε → Prop)
    (moments : List (ProjectionMoment σ)) (j : Nat) (before : ProjectionMoment σ)
    (call : ProjectionCall ε) (offers : List Offer) : Prop where
  here : moments[j]? = some before
  next : moments[j + 1]? = some (before.next p call)
  of : calls call
  offered : p.Offered before call offers

/-- Before the `i`-th of these states, a call opened the section. -/
def Opened (p : Projection ε σ) (calls : ProjectionCall ε → Prop)
    (moments : List (ProjectionMoment σ)) (i : Nat) (opened : Section) : Prop :=
  ∃ j < i, ∃ before call offers, p.OffersAt calls moments j before call offers ∧
    before.stack.Opens offers opened (before.next p call).stack

variable {calls : ProjectionCall ε → Prop} {others : Work ε σ Unit → Prop}

theorem opened_of_isChain (quiet : Quiet p.storeHook) {moments : List (ProjectionMoment σ)}
    {first moment : ProjectionMoment σ}
    (chain : (first :: moments).IsChain (ProjectionMoment.Steps p calls others)) {i : Nat}
    (hi : (first :: moments)[i]? = some moment) {opened : Section}
    (ho : opened ∈ moment.stack.sections) :
    opened ∈ first.stack.sections ∨ p.Opened calls (first :: moments) i opened := by
  induction moments generalizing first i with
  | nil =>
    cases i with
    | zero =>
      obtain rfl := Option.some.inj hi
      exact Or.inl ho
    | succ i => cases hi
  | cons second rest ih =>
    obtain ⟨hstep, hrest⟩ := List.isChain_cons_cons.mp chain
    cases i with
    | zero =>
      obtain rfl := Option.some.inj hi
      exact Or.inl ho
    | succ i =>
      rcases ih hrest hi with hsecond | ⟨j, hj, before, call, offers, hoffers, hopens⟩
      · cases hstep with
        | call hcall =>
          rcases mem_sections_next quiet hsecond with hfirst | ⟨offers, hoffered, hopens⟩
          · exact Or.inl hfirst
          · refine Or.inr ⟨0, Nat.succ_pos i, first, _, offers, ⟨rfl, rfl, hcall, hoffered⟩, ?_⟩
            exact hopens
        | other => exact Or.inl hsecond
      · refine Or.inr ⟨j + 1, Nat.succ_lt_succ hj, before, call, offers, ?_, hopens⟩
        exact ⟨hoffers.here, hoffers.next, hoffers.of, hoffers.offered⟩

/-- In every state that a program passes, each open section was opened by a call before. -/
theorem run_opened (quiet : Quiet p.storeHook) {program : ProjectionProgram ε σ}
    (uses : program.Uses calls others) (s : σ) {i : Nat} {moment : ProjectionMoment σ}
    (hi : (program.moments p s)[i]? = some moment) {opened : Section}
    (ho : opened ∈ moment.stack.sections) : p.Opened calls (program.moments p s) i opened :=
  (opened_of_isChain quiet (ProjectionProgram.run_isChain uses s) hi ho).resolve_left
    fun hstart => nomatch hstart

/-- Whatever a program does: in every state that it passes, all frames are listed. -/
theorem run_covered (quiet : Quiet p.storeHook) {program : ProjectionProgram ε σ}
    (uses : program.Uses calls others) (s : σ) :
    ∀ moment ∈ program.moments p s, moment.stack.Covered := by
  have hkeeps : (program.run p).Keeps
      (ProjectionProgram.CalmThroughout fun moment => moment.stack.Covered) := by
    refine ProjectionProgram.run_keeps (fun call _ moment h => ?_) (fun work _ moment h => ?_) uses
    · exact Work.ends_leaves.mpr (covered_next quiet h call)
    · exact Work.ends_leaves.mpr h
  exact ProjectionProgram.forall_moments hkeeps covered_empty

theorem storedOffers_yields (p : Projection ε σ) (keys : List String) :
    (p.storedOffers keys).Yields (fun _ => True) fun offers =>
      offers.map Prod.fst = keys.map some := by
  induction keys with
  | nil => exact Work.yields_pure rfl
  | cons key rest ih =>
    refine (Work.keeps_true (p.lookUp key)).yields.bind fun value _ =>
      ih.bind fun offers hoffers => Work.yields_pure ?_
    rw [List.map_cons, List.map_cons, hoffers]

/-- Where no two roles share a key, no call offers a property with two values. -/
theorem Offered.singleValued (distinct : p.config.propertyNames.Nodup)
    {moment : ProjectionMoment σ} {call : ProjectionCall ε} {offers : List Offer}
    (h : p.Offered moment call offers) : SingleValued offers := by
  cases call with
  | push view =>
    obtain ⟨t, hread⟩ := h
    have hoffers := (Work.ends_of_ok hread).mp (readOffers_yields (Work.keeps_true p.clear)
      (offers_singleValued distinct view) moment.stack.hasTracked moment.shared trivial)
    exact hoffers.2 offers rfl
  | fetch =>
    obtain ⟨t, hread⟩ := h
    have hoffers := (Work.ends_of_ok hread).mp
      (p.storedOffers_yields p.config.propertyNames moment.shared trivial)
    refine singleValued_of_distinct ?_
    rw [hoffers.2 offers rfl]
    exact distinct.map fun _ _ => Option.some.inj
  | pop | sync | clear => exact h.elim

/-- Where no call of the run offers a property with two values, no section lists one twice. -/
theorem run_listsOnce (quiet : Quiet p.storeHook) {program : ProjectionProgram ε σ}
    (uses : program.Uses calls others) {s : σ}
    (single : ∀ j before call offers,
      p.OffersAt calls (program.moments p s) j before call offers → SingleValued offers) :
    ∀ moment ∈ program.moments p s, moment.stack.ListsOnce := by
  intro moment hm opened ho
  obtain ⟨i, hi⟩ := List.getElem?_of_mem hm
  obtain ⟨j, _, before, call, offers, hoffers, hopens⟩ := run_opened quiet uses s hi ho
  exact hopens.nodup (single j before call offers hoffers)

/-- All sections that are open in a state that a program passes are accounted for. -/
theorem run_accounted (quiet : Quiet p.storeHook) {program : ProjectionProgram ε σ}
    (uses : program.Uses calls others) (s : σ) {i : Nat} {moment : ProjectionMoment σ}
    (hi : (program.moments p s)[i]? = some moment) :
    moment.stack.Accounted (p.Opened calls (program.moments p s) i)
      (∀ j before call offers,
        p.OffersAt calls (program.moments p s) j before call offers → SingleValued offers) := by
  have hm := List.mem_of_getElem? hi
  exact (run_covered quiet uses s moment hm).accounted (fun _ ho => run_opened quiet uses s hi ho)
    fun single => run_listsOnce quiet uses single moment hm

end Projection

/-- A property that is offered with two values, one after the other, is listed twice. -/
theorem SectionStack.section_lists_property_twice :
    let run : Work Empty (SectionStack × Unit) (List (Option Bool)) :=
      StackCall.runAll (fun _ => silent) [.push [(some "a", some "1"), (some "a", some "2")]]
    let st := (run.leaves (.empty, ())).1
    (run.outcome (.empty, ())).isOk = true ∧
      st.openNames = [["a", "a"]] ∧ st.depth "a" = 2 ∧ st.sectionCount = 1 := by
  decide +kernel

/-- An activity and a tenant under one key. -/
def doubledProjection : Projection Failure World :=
  leftOverSetup.projection 0
    ⟨.ofRoles fun role => if role = .activityId ∨ role = .tenantId then some "k" else none,
      .ambient, none⟩

def doubledProgram : ProjectionProgram Failure World :=
  .inSection (.ofExecution { activityId := some "a", tenantId := some "t" }) (.call .fetch .done)
    .done

def nestedProgram : ProjectionProgram Failure World :=
  .inSection (.ofExecution { activityId := some "a" })
    (.inSection (.ofExecution { activityId := some "b", tenantId := some "t" }) .done .done) .done

/-- An open section lists each property as often as the offers of the push that opened it change the
value, and the frames of a property are as many as its listings; for the sections of a projection,
whatever its configuration, too. So where no push offers a property with two values, no section lists
a property twice, and no property has more frames than there are sections. A mapping has one value for
each property, and so has each call of a projection whose roles do not share a key. -/
theorem SectionStack.sections_list_value_changes {ε ε' σ τ : Type} {hooks : HookKind → Hook ε σ}
    (quiet : ∀ kind, Quiet (hooks kind)) {p : Projection ε' τ} (writes : Quiet p.storeHook) :
    (∀ calls s, ∃ answers st t, StackCall.runAll hooks calls (.empty, s) = .ok answers (st, t) ∧
      st.Accounted (StackCall.Opened hooks calls s)
        (∀ offers, .push offers ∈ calls → SingleValued offers)) ∧
    (∀ calls others (program : ProjectionProgram ε' τ), program.Uses calls others →
      ∀ s (i : Nat) moment, (program.moments p s)[i]? = some moment →
        moment.stack.Accounted (p.Opened calls (program.moments p s) i)
          (∀ j before call offers,
            p.OffersAt calls (program.moments p s) j before call offers → SingleValued offers)) ∧
    (∀ offers, (offers.map Prod.fst).Nodup → SingleValued offers) ∧
    (p.config.propertyNames.Nodup →
      ∀ moment call offers, p.Offered moment call offers → SingleValued offers) :=
  ⟨StackCall.runAll_accounted quiet,
    fun _ _ _ uses s _ _ hi => Projection.run_accounted writes uses s hi,
    fun _ distinct => singleValued_of_distinct distinct,
    fun distinct _ _ _ offered => Projection.Offered.singleValued distinct offered⟩

/-- Two pushes leave two sections open. A projection pushes two roles under one key; another one, where
each role has its own key, is inside two sections. -/
theorem SectionStack.sections_list_value_changes_shop :
    let calls : List StackCall := [.push [(some "a", some "1"), (some "a", some "1")],
      .push [(some "b", some "1"), (some "a", some "2")]]
    let run : Work Empty (SectionStack × Unit) (List (Option Bool)) :=
      StackCall.runAll (fun _ => silent) calls
    let st := (run.leaves (.empty, ())).1
    let doubled := doubledProgram.moments doubledProjection leftOverSetup.world
    let nested := nestedProgram.moments shopProjection leftOverSetup.world
    (st.openNames = [["b", "a"], ["a"]] ∧ (∀ opened ∈ st.sections, opened.names.Nodup) ∧
      ∀ name, st.depth name ≤ st.sectionCount) ∧
    (∃ (i : Nat) (moment : ProjectionMoment World), doubled[i]? = some moment ∧
      moment.stack.openNames = [["k", "k"]] ∧
      (∀ opened ∈ moment.stack.sections, doubledProjection.Opened (fun _ => True) doubled i opened) ∧
      ∀ name, moment.stack.depth name = moment.stack.listings name) ∧
    ∃ (i : Nat) (moment : ProjectionMoment World), nested[i]? = some moment ∧
      moment.stack.sectionCount = 2 ∧
      (∀ opened ∈ moment.stack.sections, opened.names.Nodup) ∧
      ∀ name, moment.stack.depth name ≤ moment.stack.sectionCount := by
  intro calls run st doubled nested
  have hquiet : ∀ kind : HookKind, Quiet ((fun _ => silent (ε := Empty) (σ := Unit)) kind) :=
    fun _ => quiet_silent
  have hreliable : leftOverSetup.backing.Reliable := trivial
  have howns : doubledProjection.Owns (World.stored leftOverSetup.backing) :=
    Setup.owns_projection hreliable 0 _
  obtain ⟨-, hdoubled, -, -⟩ := sections_list_value_changes hquiet howns.quiet_storeHook
  obtain ⟨hstack, hnested, hmappings, hkeys⟩ :=
    sections_list_value_changes hquiet owns_shopProjection.quiet_storeHook
  refine ⟨?_, ?_, ?_⟩
  · obtain ⟨answers, st', _, hrun, haccounted⟩ := hstack calls ()
    obtain rfl : st = st' := congrArg Prod.fst (Work.leaves_of_ok hrun)
    suffices hsingle : ∀ offers, .push offers ∈ calls → SingleValued offers from
      ⟨by decide +kernel, haccounted.nodup hsingle, haccounted.depth_le hsingle⟩
    intro offers ho
    simp only [calls, List.mem_cons, StackCall.push.injEq, List.not_mem_nil, or_false] at ho
    rcases ho with rfl | rfl
    · intro name value value' hm hm' _
      simp only [List.mem_cons, List.not_mem_nil, or_false, or_self, Prod.mk.injEq] at hm hm'
      rw [hm.2, hm'.2]
    · exact hmappings _ (by decide)
  · have hopen : (doubled[1]?.map fun moment => moment.stack.openNames) = some [["k", "k"]] := by
      decide +kernel
    obtain ⟨moment, hmoment, hnames⟩ := Option.map_eq_some_iff.mp hopen
    have haccounted := hdoubled (fun _ => True) (fun _ => True) doubledProgram
      doubledProgram.uses_all leftOverSetup.world 1 moment hmoment
    exact ⟨1, moment, hmoment, hnames, haccounted.opened, haccounted.depth_eq⟩
  · have hopen : (nested[2]?.map fun moment => moment.stack.sectionCount) = some 2 := by
      decide +kernel
    obtain ⟨moment, hmoment, hcount⟩ := Option.map_eq_some_iff.mp hopen
    have haccounted := hnested (fun _ => True) (fun _ => True) nestedProgram
      nestedProgram.uses_all leftOverSetup.world 2 moment hmoment
    have hsingle : ∀ j before call offers,
        shopProjection.OffersAt (fun _ => True) nested j before call offers → SingleValued offers :=
      fun _ before call offers h => hkeys (by decide +kernel) before call offers h.offered
    exact ⟨2, moment, hmoment, hcount, haccounted.nodup hsingle, haccounted.depth_le hsingle⟩

end LogContext
