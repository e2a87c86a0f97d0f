import LogContext.Projection

namespace LogContext

namespace Work

theorem get_bind {ε σ α : Type} (f : σ → Work ε σ α) (s : σ) :
    ((get : Work ε σ σ) >>= f) s = f s s := rfl

theorem modify_bind {ε σ α : Type} (g : σ → σ) (f : PUnit → Work ε σ α) (s : σ) :
    ((modify g : Work ε σ PUnit) >>= f) s = f ⟨⟩ (g s) := rfl

/-- `post` holds of how the work ends, with a value or a failure, and of the state that it leaves. -/
def Ends {ε σ α : Type} (work : Work ε σ α) (s : σ) (post : Except ε α → σ → Prop) : Prop :=
  match work s with
  | .ok a t => post (.ok a) t
  | .error e t => post (.error e) t

def outcome {ε σ α : Type} (work : Work ε σ α) (s : σ) : Except ε α :=
  match work s with
  | .ok a _ => .ok a
  | .error e _ => .error e

/-- The state that the work leaves, however it ends. -/
def leaves {ε σ α : Type} (work : Work ε σ α) (s : σ) : σ :=
  match work s with
  | .ok _ t => t
  | .error _ t => t

theorem eq_of_outcome_of_leaves {ε σ α : Type} {work other : Work ε σ α} {s : σ}
    (houtcome : work.outcome s = other.outcome s) (hleaves : work.leaves s = other.leaves s) :
    work s = other s := by
  unfold outcome at houtcome
  unfold leaves at hleaves
  cases hw : work s <;> cases ho : other s <;> simp_all

theorem ends_of_ok {ε σ α : Type} {work : Work ε σ α} {s t : σ} {a : α}
    {post : Except ε α → σ → Prop} (h : work s = .ok a t) :
    work.Ends s post ↔ post (.ok a) t := by
  simp only [Ends, h]

theorem ends_of_error {ε σ α : Type} {work : Work ε σ α} {s t : σ} {e : ε}
    {post : Except ε α → σ → Prop} (h : work s = .error e t) :
    work.Ends s post ↔ post (.error e) t := by
  simp only [Ends, h]

theorem outcome_of_ok {ε σ α : Type} {work : Work ε σ α} {s t : σ} {a : α}
    (h : work s = .ok a t) : work.outcome s = .ok a := by
  rw [outcome, h]

theorem leaves_of_ok {ε σ α : Type} {work : Work ε σ α} {s t : σ} {a : α}
    (h : work s = .ok a t) : work.leaves s = t := by
  rw [leaves, h]

theorem ends_of_forall {ε σ α : Type} {work : Work ε σ α} {s : σ} {post : Except ε α → σ → Prop}
    (hok : ∀ a t, work s = .ok a t → post (.ok a) t)
    (herror : ∀ e t, work s = .error e t → post (.error e) t) : work.Ends s post := by
  unfold Ends
  split
  next a t h => exact hok a t h
  next e t h => exact herror e t h

theorem ends_iff {ε σ α : Type} {work : Work ε σ α} {s : σ} {post : Except ε α → σ → Prop} :
    work.Ends s post ↔ post (work.outcome s) (work.leaves s) := by
  unfold Ends outcome leaves
  cases work s <;> rfl

theorem Ends.imp {ε σ α : Type} {work : Work ε σ α} {s : σ} {p q : Except ε α → σ → Prop}
    (h : work.Ends s p) (himp : ∀ r t, p r t → q r t) : work.Ends s q :=
  ends_iff.mpr (himp _ _ (ends_iff.mp h))

theorem Ends.and {ε σ α : Type} {work : Work ε σ α} {s : σ} {p q : Except ε α → σ → Prop}
    (hp : work.Ends s p) (hq : work.Ends s q) : work.Ends s fun r t => p r t ∧ q r t :=
  ends_iff.mpr ⟨ends_iff.mp hp, ends_iff.mp hq⟩

theorem ends_leaves {ε σ α : Type} {work : Work ε σ α} {s : σ} {p : σ → Prop} :
    (work.Ends s fun _ t => p t) ↔ p (work.leaves s) :=
  ends_iff

theorem exists_ok_of_ends {ε σ α : Type} {work : Work ε σ α} {s : σ} {a : α} {p : σ → Prop}
    (h : work.Ends s fun r t => r = .ok a ∧ p t) : ∃ t, work s = .ok a t ∧ p t := by
  unfold Ends at h
  split at h
  next b t ht =>
    obtain ⟨hb, hp⟩ := h
    cases hb
    exact ⟨t, ht, hp⟩
  next => exact absurd h.1 (by simp)

theorem exists_error_of_ends {ε σ α : Type} {work : Work ε σ α} {s : σ} {e : ε} {P : σ → Prop}
    (h : work.Ends s fun r t => r = .error e ∧ P t) : ∃ t, work s = .error e t ∧ P t := by
  cases hwork : work s with
  | ok a t =>
    rw [ends_of_ok hwork] at h
    cases h.1
  | error e' t =>
    rw [ends_of_error hwork] at h
    obtain ⟨he, ht⟩ := h
    exact ⟨t, congrArg (EStateM.Result.error · t) (Except.error.inj he), ht⟩

theorem eq_ok_of_ends {ε σ α : Type} {work : Work ε σ α} {s t : σ} {a : α}
    (h : work.Ends s fun r u => r = .ok a ∧ u = t) : work s = .ok a t := by
  obtain ⟨u, hu, rfl⟩ := exists_ok_of_ends h
  exact hu

theorem exists_ok_of_isOk {ε σ α : Type} {work : Work ε σ α} {s : σ}
    (h : (work.outcome s).isOk = true) : ∃ a t, work s = .ok a t := by
  unfold outcome at h
  cases hw : work s with
  | ok a t => exact ⟨a, t, rfl⟩
  | error e t =>
    rw [hw] at h
    cases h

@[simp] theorem ends_pure {ε σ α : Type} {s : σ} {a : α} {post : Except ε α → σ → Prop} :
    (pure a : Work ε σ α).Ends s post ↔ post (.ok a) s := Iff.rfl

@[simp] theorem ends_throw {ε σ α : Type} {s : σ} {e : ε} {post : Except ε α → σ → Prop} :
    (throw e : Work ε σ α).Ends s post ↔ post (.error e) s := Iff.rfl

@[simp] theorem ends_get {ε σ : Type} {s : σ} {post : Except ε σ → σ → Prop} :
    (get : Work ε σ σ).Ends s post ↔ post (.ok s) s := Iff.rfl

@[simp] theorem ends_set {ε σ : Type} {s t : σ} {post : Except ε PUnit → σ → Prop} :
    (set t : Work ε σ PUnit).Ends s post ↔ post (.ok ⟨⟩) t := Iff.rfl

@[simp] theorem ends_modify {ε σ : Type} {s : σ} {f : σ → σ} {post : Except ε PUnit → σ → Prop} :
    (modify f : Work ε σ PUnit).Ends s post ↔ post (.ok ⟨⟩) (f s) := Iff.rfl

@[simp] theorem ends_modifyGet {ε σ α : Type} {s : σ} {f : σ → α × σ}
    {post : Except ε α → σ → Prop} :
    (modifyGet f : Work ε σ α).Ends s post ↔ post (.ok (f s).1) (f s).2 := Iff.rfl

@[simp] theorem ends_ofExcept {ε σ α : Type} {s : σ} {r : Except ε α}
    {post : Except ε α → σ → Prop} : (ofExcept r : Work ε σ α).Ends s post ↔ post r s := by
  cases r <;> rfl

@[simp] theorem ends_bind {ε σ α β : Type} {work : Work ε σ α} {f : α → Work ε σ β} {s : σ}
    {post : Except ε β → σ → Prop} :
    (work >>= f).Ends s post ↔ work.Ends s fun r t =>
      match r with
      | .ok a => (f a).Ends t post
      | .error e => post (.error e) t := by
  simp only [Ends, bind, EStateM.bind]
  cases work s <;> rfl

@[simp] theorem ends_map {ε σ α β : Type} {work : Work ε σ α} {f : α → β} {s : σ}
    {post : Except ε β → σ → Prop} :
    (f <$> work).Ends s post ↔ work.Ends s fun r t => post (f <$> r) t := by
  simp only [Ends, Functor.map, EStateM.map]
  cases work s <;> rfl

@[simp] theorem ends_attempt {ε σ α : Type} {work : Work ε σ α} {s : σ}
    {post : Except ε (Except ε α) → σ → Prop} :
    work.attempt.Ends s post ↔ work.Ends s fun r t => post (.ok r) t := by
  simp only [Ends, attempt]
  cases work s <;> rfl

@[simp] theorem ends_within {ε σ τ α : Type} {work : Work ε τ α} {part : σ → τ} {put : τ → σ → σ}
    {s : σ} {post : Except ε α → σ → Prop} :
    (work.within part put).Ends s post ↔ work.Ends (part s) fun r t => post r (put t s) := by
  simp only [Ends, within]
  cases work (part s) <;> rfl

@[simp] theorem outcome_within {ε σ τ α : Type} (work : Work ε τ α) (part : σ → τ)
    (put : τ → σ → σ) (s : σ) : (work.within part put).outcome s = work.outcome (part s) := by
  unfold outcome within
  cases work (part s) <;> rfl

theorem outcome_beside {ε σ τ α : Type} (work : Work ε σ α) (s : τ × σ) :
    work.beside.outcome s = work.outcome s.2 := by
  unfold outcome beside
  cases work s.2 <;> rfl

theorem leaves_modifyGet {ε σ α : Type} (f : σ → α × σ) (s : σ) :
    (modifyGet f : Work ε σ α).leaves s = (f s).2 := rfl

@[simp] theorem leaves_within {ε σ τ α : Type} (work : Work ε τ α) (part : σ → τ)
    (put : τ → σ → σ) (s : σ) : (work.within part put).leaves s = put (work.leaves (part s)) s := by
  unfold leaves within
  cases work (part s) <;> rfl

@[simp] theorem ends_beside {ε σ τ α : Type} {work : Work ε σ α} {s : τ × σ}
    {post : Except ε α → τ × σ → Prop} :
    work.beside.Ends s post ↔ work.Ends s.2 fun r t => post r (s.1, t) := by
  simp only [Ends, beside]
  cases work s.2 <;> rfl

theorem ends_ensuring {ε σ α : Type} {body : Work ε σ α} {after : Work ε σ Unit} {s : σ}
    {post : Except ε α → σ → Prop} :
    (body.ensuring after).Ends s post ↔ body.Ends s fun r t => after.Ends t fun r' u =>
      match r' with
      | .ok _ => post r u
      | .error e => post (.error e) u := by
  simp only [ensuring, ends_bind, ends_attempt]
  unfold Ends
  split
  next a t _ =>
    simp only
    cases after t <;> rfl
  next e t _ =>
    simp only
    cases after t <;> rfl

/-- The work keeps an invariant, however it ends. -/
def Keeps {ε σ α : Type} (I : σ → Prop) (work : Work ε σ α) : Prop :=
  ∀ s, I s → work.Ends s fun _ t => I t

theorem Keeps.leaves {ε σ α : Type} {I : σ → Prop} {work : Work ε σ α} (h : work.Keeps I) {s : σ}
    (hs : I s) : I (work.leaves s) := ends_leaves.mp (h s hs)

theorem keeps_true {ε σ α : Type} (work : Work ε σ α) : work.Keeps fun _ => True :=
  fun _ _ => ends_leaves.mpr trivial

theorem keeps_pure {ε σ α : Type} {I : σ → Prop} (a : α) : (pure a : Work ε σ α).Keeps I :=
  fun _ h => h

theorem keeps_throw {ε σ α : Type} {I : σ → Prop} (e : ε) : (throw e : Work ε σ α).Keeps I :=
  fun _ h => h

theorem keeps_ofExcept {ε σ α : Type} {I : σ → Prop} (r : Except ε α) :
    (ofExcept r : Work ε σ α).Keeps I :=
  fun _ h => ends_ofExcept.mpr h

theorem keeps_get {ε σ : Type} {I : σ → Prop} : (get : Work ε σ σ).Keeps I :=
  fun _ h => h

theorem keeps_modify {ε σ : Type} {I : σ → Prop} {f : σ → σ} (h : ∀ s, I s → I (f s)) :
    (modify f : Work ε σ PUnit).Keeps I :=
  h

theorem keeps_modifyGet {ε σ α : Type} {I : σ → Prop} {f : σ → α × σ}
    (h : ∀ s, I s → I (f s).2) : (modifyGet f : Work ε σ α).Keeps I :=
  h

theorem Ends.bind {ε σ α β : Type} {I : σ → Prop} {work : Work ε σ α} {f : α → Work ε σ β} {s : σ}
    (h : work.Ends s fun _ t => I t) (hf : ∀ a, (f a).Keeps I) :
    (work >>= f).Ends s fun _ t => I t := by
  refine ends_bind.mpr (h.imp ?_)
  intro r t ht
  cases r with
  | ok a => exact hf a t ht
  | error e => exact ht

/-- The outcome of work, from the outcomes of its parts. -/
theorem Ends.bind_outcome {ε σ α β : Type} {work : Work ε σ α} {f : α → Work ε σ β} {s : σ}
    {outcome : Except ε α} {next : α → Except ε β} {P Q : σ → Prop}
    (h : work.Ends s fun r t => r = outcome ∧ P t)
    (hnext : ∀ a t, P t → (f a).Ends t fun r u => r = next a ∧ Q u) (hPQ : ∀ t, P t → Q t) :
    (work >>= f).Ends s fun r u => r = (outcome >>= next) ∧ Q u := by
  refine ends_bind.mpr (h.imp ?_)
  rintro r t ⟨rfl, ht⟩
  cases r with
  | ok a => exact hnext a t ht
  | error e => exact ⟨rfl, hPQ t ht⟩

theorem Keeps.bind {ε σ α β : Type} {I : σ → Prop} {work : Work ε σ α} {f : α → Work ε σ β}
    (h : work.Keeps I) (hf : ∀ a, (f a).Keeps I) : (work >>= f).Keeps I :=
  fun s hs => (h s hs).bind hf

theorem Keeps.map {ε σ α β : Type} {I : σ → Prop} {work : Work ε σ α} (h : work.Keeps I)
    (f : α → β) : (f <$> work).Keeps I :=
  fun s hs => ends_map.mpr (h s hs)

theorem Keeps.attempt {ε σ α : Type} {I : σ → Prop} {work : Work ε σ α} (h : work.Keeps I) :
    work.attempt.Keeps I :=
  fun s hs => ends_attempt.mpr (h s hs)

theorem Keeps.ensuring {ε σ α : Type} {I : σ → Prop} {body : Work ε σ α} {after : Work ε σ Unit}
    (h : body.Keeps I) (ha : after.Keeps I) : (body.ensuring after).Keeps I := by
  intro s hs
  refine ends_ensuring.mpr ((h s hs).imp ?_)
  intro r t ht
  refine (ha t ht).imp ?_
  intro r' u hu
  cases r' with
  | ok => exact hu
  | error => exact hu

theorem Keeps.bracket {ε σ α : Type} {I : σ → Prop} {enter : Work ε σ Bool} {leave : Work ε σ Unit}
    {body : Bool → Work ε σ α} (he : enter.Keeps I) (hl : leave.Keeps I)
    (hb : ∀ changed, (body changed).Keeps I) : (bracket enter leave body).Keeps I := by
  refine he.bind fun changed => ?_
  cases changed with
  | true => exact (hb true).ensuring hl
  | false => exact hb false

theorem ends_bracket {ε σ α : Type} {enter : Work ε σ Bool} {leave : Work ε σ Unit}
    {body : Bool → Work ε σ α} {s : σ} {post : Except ε α → σ → Prop} :
    (bracket enter leave body).Ends s post ↔ enter.Ends s fun r t =>
      match r with
      | .ok true => ((body true).ensuring leave).Ends t post
      | .ok false => (body false).Ends t post
      | .error e => post (.error e) t := by
  unfold bracket
  simp only [Ends, bind, EStateM.bind]
  cases enter s with
  | ok changed t => cases changed <;> rfl
  | error e t => rfl

/-- The work keeps an invariant, and what it gives if it ends well has a property. -/
def Yields {ε σ α : Type} (I : σ → Prop) (P : α → Prop) (work : Work ε σ α) : Prop :=
  ∀ s, I s → work.Ends s fun r t => I t ∧ ∀ a, r = .ok a → P a

theorem yields_pure {ε σ α : Type} {I : σ → Prop} {P : α → Prop} {a : α} (h : P a) :
    (pure a : Work ε σ α).Yields I P := by
  intro s hs
  refine ⟨hs, fun b hb => ?_⟩
  cases hb
  exact h

theorem Yields.imp {ε σ α : Type} {I : σ → Prop} {P Q : α → Prop} {work : Work ε σ α}
    (h : work.Yields I P) (hPQ : ∀ a, P a → Q a) : work.Yields I Q :=
  fun s hs => (h s hs).imp fun _ _ ht => ⟨ht.1, fun a ha => hPQ a (ht.2 a ha)⟩

theorem Keeps.yields {ε σ α : Type} {I : σ → Prop} {work : Work ε σ α} (h : work.Keeps I) :
    work.Yields I fun _ => True :=
  fun s hs => (h s hs).imp fun _ _ ht => ⟨ht, fun _ _ => trivial⟩

theorem Yields.bind {ε σ α β : Type} {I : σ → Prop} {P : α → Prop} {Q : β → Prop}
    {work : Work ε σ α} {f : α → Work ε σ β} (h : work.Yields I P)
    (hf : ∀ a, P a → (f a).Yields I Q) : (work >>= f).Yields I Q := by
  intro s hs
  refine ends_bind.mpr ((h s hs).imp ?_)
  intro r t ht
  cases r with
  | ok a => exact hf a (ht.2 a rfl) t ht.1
  | error e => exact ⟨ht.1, fun _ hb => nomatch hb⟩

/-- Runs the handler if the body ends with a failure that is handled. -/
def rescue {ε σ : Type} (handles : ε → Bool) (body : Work ε σ Unit) (handler : ε → Work ε σ Unit) :
    Work ε σ Unit := do
  match ← body.attempt with
  | .ok _ => pure ()
  | .error e => if handles e then handler e else throw e

theorem Keeps.rescue {ε σ : Type} {I : σ → Prop} {handles : ε → Bool} {body : Work ε σ Unit}
    {handler : ε → Work ε σ Unit} (hb : body.Keeps I) (hh : ∀ e, (handler e).Keeps I) :
    (rescue handles body handler).Keeps I := by
  refine hb.attempt.bind fun outcome => ?_
  cases outcome with
  | ok => exact keeps_pure _
  | error e =>
    by_cases h : handles e = true
    · simp only [h, ↓reduceIte]
      exact hh e
    · simp only [h]
      exact keeps_throw e

/-- The work ends well, and then as `post` says, unless it may fail. -/
def EndsUnless {ε σ α : Type} (mayFail : Prop) (work : Work ε σ α) (s : σ) (post : α → σ → Prop) :
    Prop :=
  work.Ends s fun r t => match r with
    | .ok a => post a t
    | .error _ => mayFail

theorem endsUnless_of_ok {ε σ α : Type} {mayFail : Prop} {work : Work ε σ α} {s t : σ} {a : α}
    {post : α → σ → Prop} (h : work s = .ok a t) : work.EndsUnless mayFail s post ↔ post a t :=
  ends_of_ok h

theorem EndsUnless.imp {ε σ α : Type} {mayFail : Prop} {work : Work ε σ α} {s : σ}
    {post post' : α → σ → Prop} (h : work.EndsUnless mayFail s post)
    (himp : ∀ a t, post a t → post' a t) : work.EndsUnless mayFail s post' := by
  refine Ends.imp h ?_
  intro r t ht
  cases r with
  | ok a => exact himp a t ht
  | error e => exact ht

theorem EndsUnless.bind {ε σ α β : Type} {mayFail : Prop} {work : Work ε σ α}
    {f : α → Work ε σ β} {s : σ} {mid : α → σ → Prop} {post : β → σ → Prop}
    (h : work.EndsUnless mayFail s mid)
    (hf : ∀ a t, mid a t → (f a).EndsUnless mayFail t post) :
    (work >>= f).EndsUnless mayFail s post := by
  refine ends_bind.mpr (Ends.imp h ?_)
  intro r t ht
  cases r with
  | ok a => exact hf a t ht
  | error e => exact ht

theorem EndsUnless.beside {ε σ τ α : Type} {mayFail : Prop} {work : Work ε σ α} {s : τ × σ}
    {post : α → τ × σ → Prop}
    (h : work.EndsUnless mayFail s.2 fun a t => post a (s.1, t)) :
    (work.beside).EndsUnless mayFail s post := by
  refine ends_beside.mpr (Ends.imp h ?_)
  intro r t ht
  cases r with
  | ok a => exact ht
  | error e => exact ht

/-- Work that may not fail ends well. -/
theorem EndsUnless.exists_ok {ε σ α : Type} {work : Work ε σ α} {s : σ} {post : α → σ → Prop}
    (h : work.EndsUnless False s post) : ∃ a t, work s = .ok a t ∧ post a t := by
  unfold EndsUnless Ends at h
  split at h
  next a t ht => exact ⟨a, t, ht, h⟩
  next => exact h.elim

/-- The work keeps an invariant if it ends well; it fails only if it may. -/
def KeepsUnless {ε σ α : Type} (I : σ → Prop) (mayFail : Prop) (work : Work ε σ α) : Prop :=
  ∀ s, I s → work.EndsUnless mayFail s fun _ t => I t

theorem keepsUnless_pure {ε σ α : Type} {I : σ → Prop} {mayFail : Prop} (a : α) :
    (pure a : Work ε σ α).KeepsUnless I mayFail :=
  fun _ h => h

theorem KeepsUnless.bind {ε σ α β : Type} {I : σ → Prop} {mayFail : Prop} {work : Work ε σ α}
    {f : α → Work ε σ β} (h : work.KeepsUnless I mayFail)
    (hf : ∀ a, (f a).KeepsUnless I mayFail) : (work >>= f).KeepsUnless I mayFail :=
  fun s hs => (h s hs).bind fun a t ht => hf a t ht

theorem keepsUnless_true {ε σ α : Type} (work : Work ε σ α) :
    work.KeepsUnless (fun _ => True) True := by
  intro s _
  rw [EndsUnless, ends_iff]
  split <;> trivial

/-- Two pieces of work end alike, and take related states to related states. -/
def Matches {ε σ τ α : Type} (R : σ → τ → Prop) (work : Work ε σ α) (other : Work ε τ α) : Prop :=
  ∀ s t, R s t → work.Ends s fun r s' => other.Ends t fun r' t' => r' = r ∧ R s' t'

theorem Matches.leaves {ε σ τ α : Type} {R : σ → τ → Prop} {work : Work ε σ α} {other : Work ε τ α}
    (h : Matches R work other) {s : σ} {t : τ} (hst : R s t) :
    other.outcome t = work.outcome s ∧ R (work.leaves s) (other.leaves t) := by
  have hends := h s t hst
  rw [ends_iff, ends_iff] at hends
  exact hends

theorem matches_of_leaves {ε σ τ α : Type} {R : σ → τ → Prop} {work : Work ε σ α}
    {other : Work ε τ α} (h : ∀ s t, R s t →
      other.outcome t = work.outcome s ∧ R (work.leaves s) (other.leaves t)) :
    Matches R work other :=
  fun s t hst => ends_iff.mpr (ends_iff.mpr (h s t hst))

theorem matches_modify {ε σ τ : Type} {R : σ → τ → Prop} {f : σ → σ} {g : τ → τ}
    (h : ∀ s t, R s t → R (f s) (g t)) :
    Matches R (modify f : Work ε σ PUnit) (modify g) :=
  fun s t hst => ⟨rfl, h s t hst⟩

/-- What is done next may depend on the state. -/
theorem matches_get {ε σ τ α : Type} {R : σ → τ → Prop} {f : σ → Work ε σ α} {g : τ → Work ε τ α}
    (h : ∀ s t, R s t → Matches R (f s) (g t)) : Matches R (get >>= f) (get >>= g) :=
  fun s t hst => h s t hst s t hst

theorem matches_pure {ε σ τ α : Type} {R : σ → τ → Prop} (a : α) :
    Matches R (pure a : Work ε σ α) (pure a) :=
  fun _ _ h => ⟨rfl, h⟩

theorem matches_throw {ε σ τ α : Type} {R : σ → τ → Prop} (e : ε) :
    Matches R (throw e : Work ε σ α) (throw e) :=
  fun _ _ h => ⟨rfl, h⟩

theorem matches_ofExcept {ε σ τ α : Type} {R : σ → τ → Prop} (r : Except ε α) :
    Matches R (ofExcept r : Work ε σ α) (ofExcept r) :=
  fun _ _ h => ends_ofExcept.mpr (ends_ofExcept.mpr ⟨rfl, h⟩)

theorem Matches.bind {ε σ τ α β : Type} {R : σ → τ → Prop} {work : Work ε σ α} {other : Work ε τ α}
    {f : α → Work ε σ β} {g : α → Work ε τ β} (h : Matches R work other)
    (hf : ∀ a, Matches R (f a) (g a)) : Matches R (work >>= f) (other >>= g) := by
  intro s t hst
  refine ends_bind.mpr ((h s t hst).imp ?_)
  intro r s' hr
  cases r with
  | ok a =>
    obtain ⟨t', ht, hR⟩ := exists_ok_of_ends hr
    refine (hf a s' t' hR).imp ?_
    intro r s'' hr'
    rw [ends_bind, ends_of_ok ht]
    exact hr'
  | error e =>
    refine ends_bind.mpr (hr.imp ?_)
    intro r' t' hr'
    obtain ⟨heq, hR⟩ := hr'
    subst heq
    exact ⟨rfl, hR⟩

theorem Matches.map {ε σ τ α β : Type} {R : σ → τ → Prop} {work : Work ε σ α} {other : Work ε τ α}
    (h : Matches R work other) (f : α → β) : Matches R (f <$> work) (f <$> other) := by
  intro s t hst
  rw [ends_map]
  refine (h s t hst).imp ?_
  intro r s' hr
  rw [ends_map]
  refine hr.imp ?_
  intro r' t' hr'
  exact ⟨congrArg _ hr'.1, hr'.2⟩

theorem Matches.attempt {ε σ τ α : Type} {R : σ → τ → Prop} {work : Work ε σ α} {other : Work ε τ α}
    (h : Matches R work other) : Matches R work.attempt other.attempt := by
  intro s t hst
  rw [ends_attempt]
  refine (h s t hst).imp ?_
  intro r s' hr
  rw [ends_attempt]
  refine hr.imp ?_
  intro r' t' hr'
  exact ⟨congrArg _ hr'.1, hr'.2⟩

theorem Matches.rescue {ε σ τ : Type} {R : σ → τ → Prop} {handles : ε → Bool}
    {body : Work ε σ Unit} {handler : ε → Work ε σ Unit} {other : Work ε τ Unit}
    {otherHandler : ε → Work ε τ Unit} (hb : Matches R body other)
    (hh : ∀ e, Matches R (handler e) (otherHandler e)) :
    Matches R (Work.rescue handles body handler) (Work.rescue handles other otherHandler) := by
  refine hb.attempt.bind fun outcome => ?_
  cases outcome with
  | ok => exact matches_pure _
  | error e =>
    by_cases h : handles e = true
    · simp only [h, ↓reduceIte]
      exact hh e
    · simp only [h]
      exact matches_throw e

theorem Matches.ensuring {ε σ τ α : Type} {R : σ → τ → Prop} {work : Work ε σ α} {other : Work ε τ α}
    {after : Work ε σ Unit} {otherAfter : Work ε τ Unit} (h : Matches R work other)
    (ha : Matches R after otherAfter) :
    Matches R (work.ensuring after) (other.ensuring otherAfter) :=
  h.attempt.bind fun outcome => ha.bind fun _ => matches_ofExcept outcome

theorem Matches.bracket {ε σ τ α : Type} {R : σ → τ → Prop} {enter : Work ε σ Bool}
    {otherEnter : Work ε τ Bool} {leave : Work ε σ Unit} {otherLeave : Work ε τ Unit}
    {body : Bool → Work ε σ α} {otherBody : Bool → Work ε τ α} (he : Matches R enter otherEnter)
    (hl : Matches R leave otherLeave)
    (hb : ∀ changed, Matches R (body changed) (otherBody changed)) :
    Matches R (bracket enter leave body) (bracket otherEnter otherLeave otherBody) := by
  refine he.bind fun changed => ?_
  cases changed with
  | true => exact (hb true).ensuring hl
  | false => exact hb false

/-- Work on matching parts matches on the wholes. -/
theorem Matches.within {ε σ σ' τ τ' α : Type} {R : σ → τ → Prop} {S : σ' → τ' → Prop}
    {work : Work ε σ α} {other : Work ε τ α} (h : Matches R work other) {part : σ' → σ}
    {put : σ → σ' → σ'} {otherPart : τ' → τ} {otherPut : τ → τ' → τ'}
    (hpart : ∀ s t, S s t → R (part s) (otherPart t))
    (hput : ∀ s t, S s t → ∀ s' t', R s' t' → S (put s' s) (otherPut t' t)) :
    Matches S (work.within part put) (other.within otherPart otherPut) := by
  intro s t hst
  rw [ends_within]
  refine (h (part s) (otherPart t) (hpart s t hst)).imp ?_
  intro r s' hr
  rw [ends_within]
  exact hr.imp fun r' t' ht => ⟨ht.1, hput s t hst s' t' ht.2⟩

end Work

end LogContext
