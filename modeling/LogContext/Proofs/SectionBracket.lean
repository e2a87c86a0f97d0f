import LogContext.Proofs.OpenedSection
import LogContext.Proofs.StoreMirror
import LogContext.Proofs.WorldStore

namespace LogContext

open SectionStack

/-- From any state with `K` the work comes back to the open sections and frames it found, however it
ends, and to `K`. -/
def Work.Restores {ε σ α : Type} (K : σ → Prop) (work : Work ε (SectionStack × σ) α) : Prop :=
  ∀ st s, K s → work.Ends (st, s) fun _ t => t.1.SameOpen st ∧ K t.2

namespace Work

variable {ε σ α β : Type} {K : σ → Prop}

theorem restores_pure (a : α) : (pure a : Work ε (SectionStack × σ) α).Restores K :=
  fun st _ hk => ⟨.refl st, hk⟩

theorem restores_throw (e : ε) : (throw e : Work ε (SectionStack × σ) α).Restores K :=
  fun st _ hk => ⟨.refl st, hk⟩

theorem restores_get : (get : Work ε (SectionStack × σ) (SectionStack × σ)).Restores K :=
  fun st _ hk => ⟨.refl st, hk⟩

theorem Keeps.beside_restores {work : Work ε σ α} (h : work.Keeps K) :
    (work.beside : Work ε (SectionStack × σ) α).Restores K :=
  fun st s hk => ends_beside.mpr ((h s hk).imp fun _ _ ht => ⟨.refl st, ht⟩)

theorem Restores.bind {work : Work ε (SectionStack × σ) α} {f : α → Work ε (SectionStack × σ) β}
    (h : work.Restores K) (hf : ∀ a, (f a).Restores K) : (work >>= f).Restores K := by
  intro st s hk
  refine ends_bind.mpr ((h st s hk).imp ?_)
  intro r t ht
  cases r with
  | ok a => exact (hf a t.1 t.2 ht.2).imp fun _ _ hu => ⟨hu.1.trans ht.1, hu.2⟩
  | error e => exact ht

theorem Restores.attempt {work : Work ε (SectionStack × σ) α} (h : work.Restores K) :
    work.attempt.Restores K :=
  fun st s hk => ends_attempt.mpr (h st s hk)

end Work

namespace Projection

variable {ε σ : Type} {p : Projection ε σ} {K : σ → Prop} {mayFail : Prop}

/-- While `K` holds, writes to the store and reports end well and keep `K`, or they may fail. The
resolver of the application keeps `K`, however it ends. -/
structure Steady (p : Projection ε σ) (K : σ → Prop) (mayFail : Prop) : Prop where
  write : ∀ key ∈ p.config.propertyNames, ∀ value, (p.write key value).KeepsUnless K mayFail
  application : p.application.Keeps K
  report : ∀ message sections, (p.report message sections).KeepsUnless K mayFail

/-- No projection lists or writes anything but its active keys. -/
abbrev Active (p : Projection ε σ) : String → Prop := (· ∈ p.config.propertyNames)

theorem steady_true (p : Projection ε σ) : p.Steady (fun _ => True) True where
  write := fun _ _ _ => Work.keepsUnless_true _
  application := Work.keeps_true _
  report := fun _ _ => Work.keepsUnless_true _

theorem Steady.aloof_storeHook (steady : p.Steady K mayFail) :
    Aloof p.Active K mayFail p.storeHook := by
  intro key hkey value st s hk
  exact Work.EndsUnless.beside ((steady.write key hkey value s hk).imp fun _ _ ht => ⟨rfl, ht⟩)

theorem Steady.removeAll (steady : p.Steady K mayFail) {keys : List String}
    (hkeys : ∀ key ∈ keys, p.Active key) : (p.removeAll keys).KeepsUnless K mayFail := by
  induction keys with
  | nil => exact Work.keepsUnless_pure _
  | cons key rest ih =>
    exact (steady.write key (hkeys key List.mem_cons_self) none).bind fun _ =>
      ih fun other ho => hkeys other (List.mem_cons_of_mem _ ho)

theorem Steady.clear (steady : p.Steady K mayFail) : p.clear.KeepsUnless K mayFail := by
  refine (steady.removeAll fun _ h => h).bind fun _ => ?_
  split
  next => exact steady.report clearedMessage none
  next => exact Work.keepsUnless_pure _

/-- Whatever can be read of an execution is offered under active keys. -/
theorem Steady.offers (steady : p.Steady K mayFail) (view : ExecutionView ε) :
    (p.offers view).Yields K (AllActive p.Active) := by
  refine (offers_by_role steady.application view).imp ?_
  rintro offers ⟨value, hroles⟩ offer ho key hkey
  obtain ⟨role, rfl⟩ := hroles offer ho
  exact Config.mem_propertyNames hkey

/-- All that a push does before it pushes frames. -/
def readOffers (p : Projection ε σ) (view : ExecutionView ε) (tracked : Bool) :
    Work ε σ (List Offer) := do
  if !tracked then p.clear
  p.offers view

theorem readOffers_yields {view : ExecutionView ε} {P : List Offer → Prop} (hclear : p.clear.Keeps K)
    (h : (p.offers view).Yields K P) (tracked : Bool) : (p.readOffers view tracked).Yields K P := by
  cases tracked with
  | true => exact h
  | false => exact hclear.yields.bind fun _ _ => h

/-- All that a push does with what it has read. -/
def pushRead (p : Projection ε σ) (offers : List Offer) : Work ε (SectionStack × σ) Bool := do
  let changed ← SectionStack.push p.storeHook offers
  if changed then p.reportSections pushedMessage
  pure changed

theorem ends_push (enabled : p.config.isEnabled = true) {view : ExecutionView ε}
    {st : SectionStack} {s : σ} {post : Except ε Bool → SectionStack × σ → Prop} :
    (p.push view).Ends (st, s) post ↔ (p.readOffers view st.hasTracked).Ends s fun r t =>
      match r with
      | .ok offers => (p.pushRead offers).Ends (st, t) post
      | .error e => post (.error e) (st, t) := by
  have hsection : ∀ t, (p.pushSection view).Ends (st, t) post ↔ (p.offers view).Ends t fun r u =>
      match r with
      | .ok offers => (p.pushRead offers).Ends (st, u) post
      | .error e => post (.error e) (st, u) := by
    intro t
    rw [pushSection, Work.ends_bind, Work.ends_beside]
    rfl
  by_cases htracked : st.hasTracked = true
  · rw [ends_push_of_hasTracked enabled htracked, hsection, htracked]
    rfl
  · have hread : p.readOffers view st.hasTracked = (do p.clear; p.offers view) :=
      if_pos (by simpa using htracked)
    rw [ends_push_of_not_hasTracked enabled htracked, hread, Work.ends_bind]
    unfold Work.Ends
    cases p.clear s with
    | ok _ t => exact hsection t
    | error e t => rfl

theorem Steady.readOffers (steady : p.Steady K mayFail) (view : ExecutionView ε) (tracked : Bool)
    {s : σ} (hk : K s) :
    (p.readOffers view tracked).Ends s fun r t => match r with
      | .ok offers => AllActive p.Active offers ∧ K t
      | .error _ => K t ∨ mayFail := by
  have hoffers : ∀ t, K t → (p.offers view).Ends t fun r u => match r with
      | .ok offers => AllActive p.Active offers ∧ K u
      | .error _ => K u ∨ mayFail := by
    intro t hkt
    refine (steady.offers view t hkt).imp ?_
    intro r u hu
    cases r with
    | ok offers => exact ⟨hu.2 offers rfl, hu.1⟩
    | error e => exact Or.inl hu.1
  cases tracked with
  | true => exact hoffers s hk
  | false =>
    refine Work.ends_bind.mpr (Work.Ends.imp (steady.clear s hk) ?_)
    intro r t ht
    cases r with
    | ok => exact hoffers t ht
    | error e => exact Or.inr ht

theorem Steady.reportSections (steady : p.Steady K mayFail) (message : String) (st : SectionStack)
    {s : σ} (hk : K s) :
    (p.reportSections message).EndsUnless mayFail (st, s) fun _ t => t.1 = st ∧ K t.2 := by
  have hreport := steady.report message (some st.sectionCount) s hk
  exact Work.EndsUnless.beside (hreport.imp fun _ _ ht => ⟨rfl, ht⟩)

theorem Steady.pushRead (steady : p.Steady K mayFail) {offers : List Offer}
    (hoffers : AllActive p.Active offers) (st : SectionStack) {s : σ} (hk : K s) :
    (p.pushRead offers).EndsUnless mayFail (st, s) fun changed t =>
      Pushed st p.Active changed t.1 ∧ K t.2 := by
  refine (push_pushed steady.aloof_storeHook hoffers st hk).bind fun changed t ht => ?_
  cases changed with
  | false => exact ht
  | true =>
    obtain ⟨hpushed, hkt⟩ := ht
    exact (steady.reportSections pushedMessage t.1 hkt).bind fun _ _ hu =>
      ⟨hu.1 ▸ hpushed, hu.2⟩

theorem Steady.push (steady : p.Steady K mayFail) (view : ExecutionView ε) (st : SectionStack)
    {s : σ} (hk : K s) :
    (p.push view).Ends (st, s) fun r t => match r with
      | .ok changed => Pushed st p.Active changed t.1 ∧ K t.2
      | .error _ => (t.1 = st ∧ K t.2) ∨ mayFail := by
  by_cases henabled : p.config.isEnabled = true
  case neg =>
    rw [push_of_not_isEnabled henabled]
    exact ⟨rfl, hk⟩
  rw [ends_push henabled]
  refine (steady.readOffers view st.hasTracked hk).imp ?_
  intro r t ht
  cases r with
  | error e =>
    rcases ht with hkt | hfail
    · exact Or.inl ⟨rfl, hkt⟩
    · exact Or.inr hfail
  | ok offers =>
    refine Work.Ends.imp (steady.pushRead ht.1 st ht.2) ?_
    intro r u hu
    cases r with
    | ok changed => exact hu
    | error e => exact Or.inr hu

theorem Steady.pop (steady : p.Steady K mayFail) (enabled : p.config.isEnabled = true)
    {base st : SectionStack} {s : Section} (h : OneMore base s st)
    (hactive : ∀ name ∈ s.names, p.Active name) {x : σ} (hk : K x) :
    p.pop.EndsUnless mayFail (st, x) fun _ t => t.1.SameOpen base ∧ K t.2 := by
  have hpos : 0 < st.sectionCount := by
    rw [sectionCount, h.sections]
    exact Nat.succ_pos _
  rw [Work.EndsUnless, Projection.pop, if_pos enabled, Work.ends_bind, Work.ends_get]
  simp only [hpos, ↓reduceIte]
  refine (pop_sameOpen steady.aloof_storeHook h hactive hk).bind fun _ t ht => ?_
  exact (steady.reportSections poppedMessage t.1 ht.2).imp fun _ _ hu => ⟨hu.1 ▸ ht.1, hu.2⟩

/-- A section ends as its body and its pop do, and restores the stack if its push, its body and, after
a push that changed anything, its pop allow for it. -/
theorem ends_inSection {α : Type} {view : ExecutionView ε}
    {body : Bool → Work ε (SectionStack × σ) α} {st : SectionStack} {s : σ} {P : σ → Prop}
    (h : (p.push view).Ends (st, s) fun r t => match r with
      | .ok true => Pushed st p.Active true t.1 ∧ (body true).Ends t fun _ u =>
          u.1.SameOpen t.1 ∧ ∃ v, p.pop u = .ok () v ∧ P v.2
      | .ok false => t.1 = st ∧ (body false).Ends t fun _ u => u.1.SameOpen t.1 ∧ P u.2
      | .error _ => t.1 = st ∧ P t.2) :
    (p.inSection view body).Ends (st, s) fun _ t => t.1.SameOpen st ∧ P t.2 := by
  rw [Projection.inSection, Work.ends_bracket]
  by_cases henabled : p.config.isEnabled = true
  case neg =>
    rw [push_of_not_isEnabled henabled] at h ⊢
    exact h.2
  refine h.imp ?_
  intro r t ht
  cases r with
  | error e => exact ⟨ht.1 ▸ .refl t.1, ht.2⟩
  | ok changed =>
    cases changed with
    | false => exact ht.2.imp fun _ _ hu => ⟨ht.1 ▸ hu.1, hu.2⟩
    | true =>
      obtain ⟨⟨opened, hmore, hactive⟩, hbody⟩ := ht
      simp only
      rw [Work.ends_ensuring]
      refine hbody.imp ?_
      intro r u hu
      obtain ⟨hsame, v, hpop, hv⟩ := hu
      have hback := p.steady_true.pop henabled (hmore.of_sameOpen hsame) hactive (x := u.2) trivial
      rw [Work.ends_of_ok hpop]
      exact ⟨((Work.endsUnless_of_ok hpop).mp hback).1, hv⟩

/-- A section around work that restores what it finds restores it, too. -/
theorem Steady.inSection (steady : p.Steady K False) (view : ExecutionView ε) {α : Type}
    {body : Bool → Work ε (SectionStack × σ) α} (hbody : ∀ changed, (body changed).Restores K) :
    (p.inSection view body).Restores K := by
  intro st s hk
  by_cases henabled : p.config.isEnabled = true
  case neg =>
    rw [Projection.inSection, push_of_not_isEnabled henabled]
    exact hbody false st s hk
  refine ends_inSection ((steady.push view st hk).imp ?_)
  intro r t ht
  cases r with
  | error e => exact ht.resolve_right id
  | ok changed =>
    obtain ⟨hpushed, hkt⟩ := ht
    cases changed with
    | false => exact ⟨hpushed, hbody false t.1 t.2 hkt⟩
    | true =>
      refine ⟨hpushed, (hbody true t.1 t.2 hkt).imp ?_⟩
      intro r u hu
      obtain ⟨opened, hmore, hactive⟩ := hpushed
      obtain ⟨_, v, hpop, _, hkv⟩ :=
        (steady.pop henabled (hmore.of_sameOpen hu.1) hactive hu.2).exists_ok
      exact ⟨hu.1, v, hpop, hkv⟩

/-- Whatever fails before a section pushes its first frame, and however its body ends: the stack is
left as it was found, if no write to the store is refused while frames are pushed and popped. -/
theorem inSection_restores (p : Projection ε σ) (view : ExecutionView ε) {α : Type}
    {body : Bool → Work ε (SectionStack × σ) α}
    (balanced : ∀ changed t, (body changed).Ends t fun _ u => u.1.SameOpen t.1)
    (st : SectionStack) (s : σ)
    (pushes : ∀ offers t, p.readOffers view st.hasTracked s = .ok offers t →
      ∃ changed u, p.pushRead offers (st, t) = .ok changed u)
    (pops : ∀ t, p.push view (st, s) = .ok true t →
      ∃ u, p.pop ((body true).leaves t) = .ok () u) :
    (p.inSection view body).Ends (st, s) fun _ t =>
      t.1.sectionCount = st.sectionCount ∧ t.1.sections = st.sections ∧
        ∀ name, t.1.frames name = st.frames name := by
  have hpush : (p.push view).Ends (st, s) fun r t => match r with
      | .ok changed => Pushed st p.Active changed t.1
      | .error _ => t.1 = st := by
    by_cases henabled : p.config.isEnabled = true
    case neg =>
      rw [push_of_not_isEnabled henabled]
      exact rfl
    rw [ends_push henabled]
    have hread := p.steady_true.readOffers view st.hasTracked (s := s) trivial
    refine Work.ends_of_forall (fun offers t hr => ?_) fun e t _ => rfl
    obtain ⟨changed, u, hu⟩ := pushes offers t hr
    have hactive := ((Work.ends_of_ok hr).mp hread).1
    have hpushed := p.steady_true.pushRead hactive st (s := t) trivial
    exact (Work.ends_of_ok hu).mpr ((Work.endsUnless_of_ok hu).mp hpushed).1
  have hsame : (p.inSection view body).Ends (st, s) fun _ t => t.1.SameOpen st ∧ True := by
    refine ends_inSection (P := fun _ => True) ?_
    refine Work.ends_of_forall (fun changed t hr => ?_) fun e t hr => ?_
    · have hpushed := (Work.ends_of_ok hr).mp hpush
      have hbody := balanced changed t
      cases changed with
      | false => exact ⟨hpushed, hbody.imp fun _ _ hu => ⟨hu, trivial⟩⟩
      | true =>
        obtain ⟨u, hu⟩ := pops t hr
        exact ⟨hpushed, Work.ends_leaves.mpr ⟨Work.ends_leaves.mp hbody, u, hu, trivial⟩⟩
    · exact ⟨(Work.ends_of_error hr).mp hpush, trivial⟩
  refine hsame.imp ?_
  intro r t ht
  refine ⟨?_, ht.1.sections, fun name => congrFun ht.1.frames name⟩
  rw [sectionCount, ht.1.sections, sectionCount]

end Projection

/-- A store that refuses a tenant, and nothing else. -/
def guardedSetup : Setup where
  backing := .recording [(.put, "tenantId")]
  initial := [("activityId", "left over")]
  projections := []
  clock := 0
  clockStep := 1
  sink := .discard

def guardedProjection : Projection Failure World :=
  guardedSetup.projection 0 ⟨.standard, .ambient, none⟩

/-- The body of a section fails; no tenant is published. -/
theorem inSection_restores_after_failure :
    (guardedProjection.inSection (.ofExecution { activityId := some "pay" })
        fun _ => throw (.raised "no money") :
        Work Failure (SectionStack × World) Unit).Ends (.empty, guardedSetup.world) fun _ t =>
      t.1.sectionCount = 0 ∧ t.1.sections = [] ∧ ∀ name, t.1.frames name = [] := by
  refine Projection.inSection_restores guardedProjection _ (fun _ t =>
    Work.ends_throw.mpr (SectionStack.SameOpen.refl t.1)) .empty
    guardedSetup.world (fun offers t ht => ?_) (fun t ht => ?_)
  · have hpushed : (match guardedProjection.readOffers (.ofExecution { activityId := some "pay" })
          false guardedSetup.world with
        | .ok offers t => ((guardedProjection.pushRead offers).outcome (.empty, t)).isOk
        | .error _ _ => true) = true := by decide +kernel
    have hread : guardedProjection.readOffers (.ofExecution { activityId := some "pay" }) false
        guardedSetup.world = .ok offers t := ht
    rw [hread] at hpushed
    exact Work.exists_ok_of_isOk hpushed
  · have hpopped : (match guardedProjection.push (.ofExecution { activityId := some "pay" })
          (.empty, guardedSetup.world) with
        | .ok _ t => (guardedProjection.pop.outcome t).isOk
        | .error _ _ => true) = true := by decide +kernel
    rw [ht] at hpopped
    obtain ⟨_, u, hu⟩ := Work.exists_ok_of_isOk hpopped
    exact ⟨u, hu⟩

/-- The tenant is the second change of the push. Refused, it ends the push, and nobody pops the
section that the first change has opened. -/
theorem inSection_left_open_by_refused_write :
    ¬ (guardedProjection.inSection
        (.ofExecution { activityId := some "pay", tenantId := some "shop" }) fun _ => pure () :
        Work Failure (SectionStack × World) Unit).Ends (.empty, guardedSetup.world) fun _ t =>
      t.1.sectionCount = 0 := by
  rw [Work.ends_leaves]
  decide +kernel

end LogContext
