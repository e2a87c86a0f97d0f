import LogContext.Proofs.ToldChanges

namespace LogContext

open SectionStack

/-- The role under which a field of an execution is published. -/
def ExecutionField.role : ExecutionField → Role
  | .activityId => .activityId
  | .processDefinitionId => .processDefinitionId
  | .processInstanceId => .processInstanceId
  | .tenantId => .tenantId
  | .businessKey => .businessKey

namespace Config

variable {ε : Type}

/-- What is offered of an application. -/
def readApplication (config : Config) (answer : Except ε (Option String)) :
    Except ε (List Offer) :=
  match config.activeKey? .applicationName with
  | none => pure []
  | some key => do
    match ← answer with
    | none => pure []
    | some name => pure [(some key, some name)]

/-- What is offered of a business key. -/
def readBusiness (config : Config) (view : ExecutionView ε) : Except ε (List Offer) :=
  match config.activeKey? .businessKey with
  | none => pure []
  | some key => do
    let business ← view .businessKey
    pure [(some key, business)]

/-- What is offered of an execution if the resolver of the application gives this answer. -/
def reading (config : Config) (view : ExecutionView ε) (answer : Except ε (Option String)) :
    Except ε (List Offer) := do
  let activity ← view .activityId
  let definition ← view .processDefinitionId
  let instanceId ← view .processInstanceId
  let tenant ← view .tenantId
  let application ← config.readApplication answer
  let business ← config.readBusiness view
  let key := config.activeKey?
  pure ([(key .activityId, activity), (key .processDefinitionId, definition),
    (key .processInstanceId, instanceId), (key .tenantId, tenant)] ++ application ++ business)

/-- An application that is not published is not asked for. -/
theorem reading_congr (config : Config) (view : ExecutionView ε)
    {answer answer' : Except ε (Option String)}
    (h : (config.activeKey? .applicationName).isSome = true → answer = answer') :
    config.reading view answer = config.reading view answer' := by
  have happlication : config.readApplication answer = config.readApplication answer' := by
    rw [readApplication, readApplication]
    cases hkey : config.activeKey? .applicationName with
    | none => rfl
    | some key => rw [h (by rw [hkey]; rfl)]
  rw [reading, happlication, reading]

/-- All that a push reads, in order: the application and the business key only if they are published. -/
def reads (config : Config) (view : ExecutionView ε) (answer : Except ε (Option String)) :
    List (Except ε (Option String)) :=
  [view .activityId, view .processDefinitionId, view .processInstanceId, view .tenantId] ++
    (if (config.activeKey? .applicationName).isSome then [answer] else []) ++
    (if (config.activeKey? .businessKey).isSome then [view .businessKey] else [])

end Config

/-- The failure of an outcome, if it is one. -/
def failure? {ε α : Type} : Except ε α → Option ε
  | .ok _ => none
  | .error e => some e

/-- The first failure among outcomes. -/
def firstFailure? {ε α : Type} (outcomes : List (Except ε α)) : Option ε :=
  outcomes.findSome? failure?

/-- The outcome is the first failure among others, or none of them is a failure, and neither is it. -/
def FailsWith {ε α β : Type} (outcomes : List (Except ε α)) (outcome : Except ε β) : Prop :=
  failure? outcome = firstFailure? outcomes

section FailsWith

variable {ε α β γ : Type} {outcomes others : List (Except ε α)}

theorem failsWith_pure (b : β) : FailsWith ([] : List (Except ε α)) (pure b) := rfl

theorem failsWith_read (outcome : Except ε α) : FailsWith [outcome] outcome := by
  cases outcome <;> rfl

theorem FailsWith.bind {outcome : Except ε β} {next : β → Except ε γ}
    (h : FailsWith outcomes outcome) (hnext : ∀ b, FailsWith others (next b)) :
    FailsWith (outcomes ++ others) (outcome >>= next) := by
  rw [FailsWith, firstFailure?, List.findSome?_append, ← firstFailure?, ← firstFailure?, ← h]
  cases outcome with
  | ok b => exact hnext b
  | error e => rfl

end FailsWith

namespace Config

variable {ε : Type} (config : Config) (view : ExecutionView ε) (answer : Except ε (Option String))

theorem readApplication_failsWith :
    FailsWith (if (config.activeKey? .applicationName).isSome then [answer] else [])
      (config.readApplication answer) := by
  rw [readApplication]
  cases config.activeKey? .applicationName with
  | none => exact failsWith_pure _
  | some key =>
    refine (failsWith_read answer).bind fun name? => ?_
    cases name? <;> exact failsWith_pure _

theorem readBusiness_failsWith :
    FailsWith (if (config.activeKey? .businessKey).isSome then [view .businessKey] else [])
      (config.readBusiness view) := by
  rw [readBusiness]
  cases config.activeKey? .businessKey with
  | none => exact failsWith_pure _
  | some key => exact (failsWith_read (view .businessKey)).bind fun _ => failsWith_pure _

theorem reading_failsWith : FailsWith (config.reads view answer) (config.reading view answer) := by
  rw [reads, List.append_assoc, ← List.append_nil (ite _ [view .businessKey] [])]
  refine (failsWith_read _).bind fun _ => (failsWith_read _).bind fun _ =>
    (failsWith_read _).bind fun _ => (failsWith_read _).bind fun _ => ?_
  exact (config.readApplication_failsWith answer).bind fun _ =>
    (config.readBusiness_failsWith view).bind fun _ => failsWith_pure _

variable {config view answer}

theorem reading_eq_error {e : ε} (fails : firstFailure? (config.reads view answer) = some e) :
    config.reading view answer = .error e := by
  have h := config.reading_failsWith view answer
  rw [FailsWith, fails] at h
  cases hread : config.reading view answer with
  | ok offers =>
    rw [hread] at h
    cases h
  | error e' =>
    rw [hread] at h
    exact congrArg _ (Option.some.inj h)

end Config

namespace Projection

variable {ε σ : Type}

theorem businessOffers_eq (p : Projection ε σ) (view : ExecutionView ε) :
    p.businessOffers view = Work.ofExcept (p.config.readBusiness view) := by
  rw [businessOffers, Config.readBusiness]
  cases p.config.activeKey? .businessKey with
  | none => rfl
  | some key => cases hb : view .businessKey <;> rfl

theorem ends_applicationOffers (p : Projection ε σ) (s : σ) :
    p.applicationOffers.Ends s fun r t =>
      r = p.config.readApplication (p.application.outcome s) ∧
        (t = s ∨ t = p.application.leaves s) := by
  rw [applicationOffers, Config.readApplication]
  cases p.config.activeKey? .applicationName with
  | none => exact ⟨rfl, Or.inl rfl⟩
  | some key =>
    refine Work.ends_bind.mpr (Work.ends_iff.mpr ?_)
    cases ho : p.application.outcome s with
    | error e => exact ⟨rfl, Or.inr rfl⟩
    | ok name? => cases name? <;> exact ⟨rfl, Or.inr rfl⟩

theorem ends_offers (p : Projection ε σ) (view : ExecutionView ε) (s : σ) :
    (p.offers view).Ends s fun r t =>
      r = p.config.reading view (p.application.outcome s) ∧
        (t = s ∨ t = p.application.leaves s) := by
  have hread : ∀ field, (Work.ofExcept (view field) : Work ε σ (Option String)).Ends s fun r t =>
      r = view field ∧ t = s := fun field => Work.ends_ofExcept.mpr ⟨rfl, rfl⟩
  refine (hread _).bind_outcome (fun activity _ ht => ?_) fun _ ht => Or.inl ht
  obtain rfl := ht
  refine (hread _).bind_outcome (fun definition _ ht => ?_) fun _ ht => Or.inl ht
  obtain rfl := ht
  refine (hread _).bind_outcome (fun instanceId _ ht => ?_) fun _ ht => Or.inl ht
  obtain rfl := ht
  refine (hread _).bind_outcome (fun tenant _ ht => ?_) fun _ ht => Or.inl ht
  obtain rfl := ht
  refine (p.ends_applicationOffers _).bind_outcome (fun application t ht => ?_) fun _ ht => ht
  rw [businessOffers_eq]
  have hbusiness : (Work.ofExcept (p.config.readBusiness view) : Work ε σ (List Offer)).Ends t
      fun r u => r = p.config.readBusiness view ∧ u = t := Work.ends_ofExcept.mpr ⟨rfl, rfl⟩
  exact hbusiness.bind_outcome (fun business u hu => ⟨rfl, hu ▸ ht⟩) fun u hu => hu ▸ ht

/-- The state in which a push asks for the application, if it gets to it: the store is cleared before
the first value is tracked. -/
def asked (p : Projection ε σ) (st : SectionStack) (s : σ) : σ :=
  if st.hasTracked then s else p.clear.leaves s

variable {p : Projection ε σ} {view : ExecutionView ε} {st : SectionStack} {s : σ}

/-- The first value of all is read from a store that was cleared. -/
theorem readOffers_false (p : Projection ε σ) (view : ExecutionView ε) :
    p.readOffers view false = (do p.clear; p.offers view) := rfl

theorem ends_readOffers (cleared : st.hasTracked = true ∨ ∃ t, p.clear s = .ok () t) :
    (p.readOffers view st.hasTracked).Ends s fun r t =>
      r = p.config.reading view (p.application.outcome (p.asked st s)) ∧
        (t = p.asked st s ∨ t = p.application.leaves (p.asked st s)) := by
  rw [asked]
  cases htracked : st.hasTracked with
  | true => exact p.ends_offers view s
  | false =>
    obtain ⟨t, ht⟩ := cleared.resolve_left (by simp [htracked])
    rw [readOffers_false, Work.ends_bind, Work.ends_of_ok ht, Work.leaves_of_ok ht]
    exact p.ends_offers view t

/-- A push that ends well has cleared the store, if it had to. -/
theorem cleared_of_push (enabled : p.config.isEnabled = true) {changed : Bool} {t : SectionStack × σ}
    (h : p.push view (st, s) = .ok changed t) :
    st.hasTracked = true ∨ ∃ u, p.clear s = .ok () u := by
  by_cases htracked : st.hasTracked = true
  · exact Or.inl htracked
  · have hends : (p.push view).Ends (st, s) fun r _ => r = .ok changed :=
      (Work.ends_of_ok h).mpr rfl
    rw [ends_push_of_not_hasTracked enabled htracked] at hends
    cases hclear : p.clear s with
    | ok _ u => exact Or.inr ⟨u, rfl⟩
    | error e u =>
      rw [Work.ends_of_error hclear] at hends
      cases hends

/-- What a push does that need not clear the store or has cleared it, from what it reads: it ends with
the first failure, or it pushes what was read and answers whether that changed anything, unless its
report fails. -/
theorem Driven.push_reading {ρ : Type} {act : ρ → String × Option String → ρ} {see : σ → ρ}
    {K : σ → Prop} (driven : p.Driven act see K) (enabled : p.config.isEnabled = true)
    (view : ExecutionView ε) (st : SectionStack) {s : σ} (hk : K s)
    (cleared : st.hasTracked = true ∨ ∃ t, p.clear s = .ok () t) :
    (p.push view).Ends (st, s) fun r t =>
      let seen := (if st.hasTracked then [] else p.config.clearing).foldl act (see s)
      match p.config.reading view (p.application.outcome (p.asked st s)) with
      | .error e => r = .error e ∧ t.1 = st ∧ see t.2 = seen
      | .ok offers =>
        p.Answers (st.offered offers).1.isSome r ∧ t.1 = (st.offered offers).2 ∧ see t.2 = (changes (none, st) offers).foldl act seen := by
  rw [ends_push enabled]
  refine ((ends_readOffers cleared).and (driven.readOffers view st.hasTracked hk)).imp ?_
  rintro r t ⟨⟨rfl, -⟩, ⟨hsee, hkt⟩, -⟩
  cases p.config.reading view (p.application.outcome (p.asked st s)) with
  | error e => exact ⟨rfl, rfl, hsee⟩
  | ok offers =>
    refine ((driven.pushRead_answers offers st hkt).and (driven.pushRead offers st hkt)).imp ?_
    rintro r u ⟨hanswer, hstack, hseen, -⟩
    exact ⟨hanswer, hstack, hseen.trans (by rw [hsee])⟩

end Projection

end LogContext
