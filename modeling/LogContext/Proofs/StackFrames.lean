import LogContext.Proofs.WorkOutcome
import LogContext.SectionStack

namespace LogContext

/-- What every property is at one moment. -/
abbrev Snapshot := String → Option String

def Snapshot.blank : Snapshot := fun _ => none

namespace SectionStack

theorem latest_of_not_hasTracked {st : SectionStack} (h : st.hasTracked = false) (name : String) :
    st.latest name = none := by
  have hkeys : st.tracked.pairs = [] := by
    simpa [hasTracked, trackedNames, OrderedMap.keys] using h
  simp only [latest, top?, frames, OrderedMap.find?, hkeys, OrderedMap.findPairs]
  rfl

theorem frames_setFrames (st : SectionStack) (name other : String) (frames : List Frame) :
    (st.setFrames name frames).frames other = if other = name then frames else st.frames other := by
  simp only [SectionStack.frames, setFrames, OrderedMap.find?_insert]
  split <;> rfl

theorem frames_pushFrame (st : SectionStack) (name other : String) (frame : Frame) :
    (st.pushFrame name frame).frames other =
      if other = name then frame :: st.frames name else st.frames other :=
  frames_setFrames st name other (frame :: st.frames name)

theorem frames_dropFrame (st : SectionStack) (name other : String) :
    (st.dropFrame name).frames other =
      if other = name then (st.frames name).tail else st.frames other := by
  unfold dropFrame
  split
  next h =>
    by_cases eq : other = name
    · simp [eq, h]
    · simp [eq]
  next frame rest h => simp only [frames_setFrames, h, List.tail_cons]

@[simp] theorem sections_setFrames (st : SectionStack) (name : String) (frames : List Frame) :
    (st.setFrames name frames).sections = st.sections := rfl

@[simp] theorem sections_pushFrame (st : SectionStack) (name : String) (frame : Frame) :
    (st.pushFrame name frame).sections = st.sections := rfl

@[simp] theorem sections_dropFrame (st : SectionStack) (name : String) :
    (st.dropFrame name).sections = st.sections := by
  unfold dropFrame
  split <;> rfl

@[simp] theorem frames_openSection (st : SectionStack) (name : String) :
    st.openSection.frames name = st.frames name := rfl

@[simp] theorem sections_openSection (st : SectionStack) :
    st.openSection.sections = ⟨st.issued, []⟩ :: st.sections := rfl

@[simp] theorem frames_enlist (st : SectionStack) (serial : Nat) (name other : String) :
    (st.enlist serial name).frames other = st.frames other := rfl

theorem sections_enlist_innermost {st : SectionStack} {serial : Nat} {names : List String}
    {rest : List Section} (h : st.sections = ⟨serial, names⟩ :: rest) (name : String) :
    (st.enlist serial name).sections = ⟨serial, names ++ [name]⟩ :: rest := by
  have hd := (List.pairwise_cons.mp st.descending).2
  rw [h, List.map_cons] at hd
  have hlt := (List.pairwise_cons.mp hd).1
  have hrest : (rest.map fun s =>
      if s.serial = serial then { s with names := s.names ++ [name] } else s) = rest := by
    refine (List.map_congr_left fun s hs => ?_).trans (List.map_id' rest)
    have hs' := hlt s.serial (List.mem_map_of_mem hs)
    exact if_neg (by simp only at hs'; omega)
  simp only [enlist, h, List.map_cons, ↓reduceIte, hrest]

@[simp] theorem frames_ownSection (st : SectionStack) (serial? : Option Nat) (name : String) :
    (st.ownSection serial?).2.frames name = st.frames name := by
  cases serial? <;> rfl

theorem frames_change (st : SectionStack) (serial? : Option Nat) (name other : String)
    (value : Option String) :
    (st.change serial? name value).2.frames other =
      if other = name then Frame.ofValue value :: st.frames name else st.frames other := by
  simp only [change, frames_pushFrame, frames_enlist, frames_ownSection]

theorem latest_change (st : SectionStack) (serial? : Option Nat) (name other : String)
    (value : Option String) :
    (st.change serial? name value).2.latest other =
      if other = name then value else st.latest other := by
  simp only [latest, top?, frames_change]
  split
  next => exact Frame.value?_ofValue value
  next => rfl

theorem latest_dropFrame_of_ne (st : SectionStack) {name other : String} (h : other ≠ name) :
    (st.dropFrame name).latest other = st.latest other := by
  simp only [latest, top?, frames_dropFrame, h, ↓reduceIte]

/-- Takes one frame from each name, in order. -/
def dropFrames (st : SectionStack) (names : List String) : SectionStack :=
  names.foldl dropFrame st

theorem frames_dropFrames (st : SectionStack) (names : List String) (other : String) :
    (st.dropFrames names).frames other = (st.frames other).drop (names.count other) := by
  unfold dropFrames
  induction names generalizing st with
  | nil => rfl
  | cons name rest ih =>
    rw [List.foldl_cons, ih, frames_dropFrame]
    by_cases eq : other = name
    · subst eq
      rw [List.count_cons_self, if_pos rfl, ← List.drop_one, List.drop_drop, Nat.add_comm]
    · rw [List.count_cons_of_ne (Ne.symm eq), if_neg eq]

theorem sections_dropFrames (st : SectionStack) (names : List String) :
    (st.dropFrames names).sections = st.sections := by
  unfold dropFrames
  induction names generalizing st with
  | nil => rfl
  | cons name rest ih => rw [List.foldl_cons, ih, sections_dropFrame]

theorem closeSection?_eq_none {st : SectionStack} (h : st.sections = []) :
    st.closeSection? = none := by
  unfold closeSection?
  split
  next => rfl
  next s rest hs => simp [h] at hs

theorem closeSection?_eq_some {st : SectionStack} {s : Section} {rest : List Section}
    (h : st.sections = s :: rest) :
    ∃ below : SectionStack, st.closeSection? = some (s, below) ∧ below.sections = rest ∧
      below.tracked = st.tracked := by
  unfold closeSection?
  split
  next hs => simp [h] at hs
  next s' rest' hs =>
    obtain ⟨rfl, rfl⟩ := List.cons.inj (hs.symm.trans h)
    exact ⟨_, rfl, rfl, rfl⟩

theorem frames_of_closeSection? {st below : SectionStack} {s : Section}
    (h : st.closeSection? = some (s, below)) (name : String) :
    below.frames name = st.frames name := by
  cases hs : st.sections with
  | nil => simp [closeSection?_eq_none hs] at h
  | cons s' rest =>
    obtain ⟨below', hb, _, ht⟩ := closeSection?_eq_some hs
    obtain ⟨_, rfl⟩ := Prod.mk.inj (Option.some.inj (hb.symm.trans h))
    simp only [SectionStack.frames, ht]

theorem latest_of_closeSection? {st below : SectionStack} {s : Section}
    (h : st.closeSection? = some (s, below)) (name : String) :
    below.latest name = st.latest name := by
  simp only [latest, top?, frames_of_closeSection? h]

theorem trackedNames_setFrames (st : SectionStack) (name : String) (frames : List Frame) :
    (st.setFrames name frames).trackedNames =
      if name ∈ st.trackedNames then st.trackedNames else st.trackedNames ++ [name] :=
  OrderedMap.keys_insert st.tracked name frames

theorem trackedNames_change (st : SectionStack) (serial? : Option Nat) (name : String)
    (value : Option String) :
    (st.change serial? name value).2.trackedNames =
      if name ∈ st.trackedNames then st.trackedNames else st.trackedNames ++ [name] := by
  cases serial? with
  | none => exact trackedNames_setFrames _ _ _
  | some => exact trackedNames_setFrames _ _ _

theorem mem_trackedNames_of_frames_ne_nil {st : SectionStack} {name : String}
    (h : st.frames name ≠ []) : name ∈ st.trackedNames := by
  refine Decidable.byContradiction fun hname => h ?_
  rw [frames, OrderedMap.find?_eq_none_of_not_mem hname, Option.getD_none]

/-- A name stays tracked when its frames go. -/
theorem trackedNames_dropFrame (st : SectionStack) (name : String) :
    (st.dropFrame name).trackedNames = st.trackedNames := by
  unfold dropFrame
  split
  next => rfl
  next frame rest h =>
    rw [trackedNames_setFrames, if_pos (mem_trackedNames_of_frames_ne_nil (by simp [h]))]

theorem trackedNames_dropFrames (st : SectionStack) (names : List String) :
    (st.dropFrames names).trackedNames = st.trackedNames := by
  unfold dropFrames
  induction names generalizing st with
  | nil => rfl
  | cons name rest ih => rw [List.foldl_cons, ih, trackedNames_dropFrame]

theorem issued_dropFrames (st : SectionStack) (names : List String) :
    (st.dropFrames names).issued = st.issued := by
  unfold dropFrames
  induction names generalizing st with
  | nil => rfl
  | cons name rest ih =>
    rw [List.foldl_cons, ih, dropFrame]
    split <;> rfl

theorem kept_of_closeSection? {st below : SectionStack} {closed : Section}
    (h : st.closeSection? = some (closed, below)) :
    below.trackedNames = st.trackedNames ∧ below.issued = st.issued := by
  unfold closeSection? at h
  split at h
  next => cases h
  next =>
    obtain ⟨_, rfl⟩ := Prod.mk.inj (Option.some.inj h)
    exact ⟨rfl, rfl⟩

theorem hasTracked_eq_true_iff {st : SectionStack} : st.hasTracked = true ↔ st.trackedNames ≠ [] := by
  simp [hasTracked]

theorem hasTracked_change (st : SectionStack) (serial? : Option Nat) (name : String)
    (value : Option String) : (st.change serial? name value).2.hasTracked = true := by
  rw [hasTracked_eq_true_iff, trackedNames_change]
  split
  next h => exact List.ne_nil_of_mem h
  next => simp

theorem hasTracked_dropFrame (st : SectionStack) (name : String) :
    (st.dropFrame name).hasTracked = st.hasTracked := by
  rw [hasTracked, trackedNames_dropFrame, hasTracked]

theorem hasTracked_of_closeSection? {st below : SectionStack} {closed : Section}
    (h : st.closeSection? = some (closed, below)) : below.hasTracked = st.hasTracked := by
  rw [hasTracked, (kept_of_closeSection? h).1, hasTracked]

/-- The property that an offer changes, if any: a blank name and the current value change none. -/
def changed? (st : SectionStack) (offer : Offer) : Option String :=
  offer.1.filter fun name => !isBlank name && st.latest name ≠ offer.2

theorem changed?_eq_some_iff {st : SectionStack} {offer : Offer} {name : String} :
    st.changed? offer = some name ↔
      offer.1 = some name ∧ isBlank name = false ∧ st.latest name ≠ offer.2 := by
  simp [changed?, Option.filter_eq_some_iff]

theorem changed?_eq_none_of_agrees {st : SectionStack} {name : String} {value : Option String}
    (h : (isBlank name || Frame.agrees (st.top? name) (value.map .text)) = true) :
    st.changed? (some name, value) = none := by
  rcases Bool.or_eq_true_iff.mp h with h | h
  · simp [changed?, h]
  · simp [changed?, latest, (Frame.agrees_iff_value? _ _).mp h]

theorem changed?_eq_some_of_not_agrees {st : SectionStack} {name : String} {value : Option String}
    (h : (isBlank name || Frame.agrees (st.top? name) (value.map .text)) ≠ true) :
    st.changed? (some name, value) = some name := by
  rw [ne_eq, Bool.or_eq_true_iff, not_or] at h
  obtain ⟨hb, ha⟩ := h
  rw [Frame.agrees_iff_value?] at ha
  have hne : st.latest name ≠ value := ha
  simp [changed?, hb, hne]

variable {ε σ : Type}

theorem pushOffer_apply (hook : Hook ε σ) (serial? : Option Nat) (offer : Offer)
    (st : SectionStack) (s : σ) :
    pushOffer hook serial? offer (st, s) =
      match st.changed? offer with
      | none => .ok serial? (st, s)
      | some name =>
        match hook name offer.2 ((st.change serial? name offer.2).2, s) with
        | .ok _ t => .ok (some (st.change serial? name offer.2).1) t
        | .error e t => .error e t := by
  obtain ⟨name?, value⟩ := offer
  cases name? with
  | none => rfl
  | some name =>
    by_cases h : (isBlank name || Frame.agrees (st.top? name) (value.map .text)) = true
    · rw [changed?_eq_none_of_agrees h]
      simp only [pushOffer, Work.get_bind, h, ↓reduceIte]
      rfl
    · rw [changed?_eq_some_of_not_agrees h]
      simp only [pushOffer, Work.get_bind, Work.modify_bind, h, Bool.false_eq_true, ↓reduceIte]
      simp only [bind, EStateM.bind]
      cases hook name value ((st.change serial? name value).2, s) <;> rfl

theorem ends_pushOffer {hook : Hook ε σ} {serial? : Option Nat} {offer : Offer} {st : SectionStack}
    {s : σ} {post : Except ε (Option Nat) → SectionStack × σ → Prop} :
    (pushOffer hook serial? offer).Ends (st, s) post ↔
      match st.changed? offer with
      | none => post (.ok serial?) (st, s)
      | some name =>
        (hook name offer.2).Ends ((st.change serial? name offer.2).2, s) fun r t =>
          post (r.map fun _ => some (st.change serial? name offer.2).1) t := by
  unfold Work.Ends
  rw [pushOffer_apply]
  cases st.changed? offer with
  | none => rfl
  | some name =>
    simp only
    cases hook name offer.2 ((st.change serial? name offer.2).2, s) <;> rfl

theorem ends_removeName {hook : Hook ε σ} {name : String} {st : SectionStack} {s : σ}
    {post : Except ε Unit → SectionStack × σ → Prop} :
    (removeName hook name).Ends (st, s) post ↔
      (hook name ((st.dropFrame name).latest name)).Ends (st.dropFrame name, s) post := Iff.rfl

variable {active : String → Prop} {K : σ → Prop} {mayFail : Prop} {hook : Hook ε σ}

/-- Told of active names while `K` holds, the hook leaves the stack alone and keeps `K`, unless it
fails, if it may. -/
def Aloof (active : String → Prop) (K : σ → Prop) (mayFail : Prop) (hook : Hook ε σ) : Prop :=
  ∀ name, active name → ∀ value st s, K s →
    (hook name value).EndsUnless mayFail (st, s) fun _ t => t.1 = st ∧ K t.2

theorem aloof_silent (active : String → Prop) (K : σ → Prop) :
    Aloof active K False (silent : Hook ε σ) :=
  fun _ _ _ _ _ hk => ⟨rfl, hk⟩

theorem removeNames_aloof (aloof : Aloof active K mayFail hook) {names : List String}
    (hnames : ∀ name ∈ names, active name) (st : SectionStack) {s : σ} (hk : K s) :
    (removeNames hook names).EndsUnless mayFail (st, s) fun _ t =>
      t.1 = st.dropFrames names ∧ K t.2 := by
  induction names generalizing st s with
  | nil => exact ⟨rfl, hk⟩
  | cons name rest ih =>
    have hfirst : (removeName hook name).EndsUnless mayFail (st, s) fun _ t =>
        t.1 = st.dropFrame name ∧ K t.2 :=
      ends_removeName.mpr (aloof name (hnames name List.mem_cons_self) _ (st.dropFrame name) s hk)
    refine hfirst.bind fun _ t ht => ?_
    obtain ⟨dropped, x⟩ := t
    obtain rfl : dropped = st.dropFrame name := ht.1
    exact ih (fun other ho => hnames other (List.mem_cons_of_mem _ ho)) (st.dropFrame name) ht.2

end SectionStack

end LogContext
