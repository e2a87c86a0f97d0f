import LogContext.Proofs.SnapshotStack

namespace LogContext

namespace SectionStack

/-- The same sections are open, with the same frames of every property. -/
structure SameOpen (st base : SectionStack) : Prop where
  sections : st.sections = base.sections
  frames : st.frames = base.frames

theorem SameOpen.refl (st : SectionStack) : st.SameOpen st := ⟨rfl, rfl⟩

theorem SameOpen.trans {a b c : SectionStack} (h : a.SameOpen b) (h' : b.SameOpen c) :
    a.SameOpen c :=
  ⟨h.sections.trans h'.sections, h.frames.trans h'.frames⟩

theorem SameOpen.latest_eq {st base : SectionStack} (h : st.SameOpen base) :
    st.latest = base.latest := by
  funext name
  simp only [latest, top?, h.frames]

/-- The section is open on top of those of `base`, and its frames are on top of theirs. -/
structure OneMore (base : SectionStack) (s : Section) (st : SectionStack) : Prop where
  sections : st.sections = s :: base.sections
  frames : framesBefore st.frames s.names = base.frames

theorem OneMore.of_sameOpen {base st st' : SectionStack} {s : Section} (h : OneMore base s st)
    (same : st'.SameOpen st) : OneMore base s st' := by
  refine ⟨same.sections.trans h.sections, ?_⟩
  rw [same.frames]
  exact h.frames

theorem oneMore_openSection (st : SectionStack) : OneMore st ⟨st.issued, []⟩ st.openSection := by
  refine ⟨rfl, ?_⟩
  funext name
  simp only [framesBefore, List.count_nil, List.drop_zero, frames_openSection]

theorem OneMore.change {base st : SectionStack} {serial : Nat} {names : List String}
    (h : OneMore base ⟨serial, names⟩ st) (name : String) (value : Option String) :
    OneMore base ⟨serial, names ++ [name]⟩ (st.change (some serial) name value).2 where
  sections := (sections_pushFrame _ _ _).trans (sections_enlist_innermost h.sections name)
  frames := (framesBefore_change st (some serial) name value names).trans h.frames

/-- Taking the section off, with a frame of each name that it lists, gives back what was below. -/
theorem OneMore.sameOpen_dropFrames {base st below : SectionStack} {s : Section}
    (h : OneMore base s st) (hclose : st.closeSection? = some (s, below))
    (hbelow : below.sections = base.sections) : (below.dropFrames s.names).SameOpen base := by
  refine ⟨(sections_dropFrames below s.names).trans hbelow, ?_⟩
  rw [← h.frames]
  funext name
  rw [frames_dropFrames, frames_of_closeSection? hclose, framesBefore]

/-- What a push onto `base` has done while it carries a serial number along: nothing yet, or it has
opened a section, which lists active names only. -/
def Pushing (base : SectionStack) (active : String → Prop) (serial? : Option Nat)
    (st : SectionStack) : Prop :=
  match serial? with
  | none => st = base
  | some serial => ∃ names, OneMore base ⟨serial, names⟩ st ∧ ∀ name ∈ names, active name

/-- What a push onto `base` has done, by the answer it gives. -/
def Pushed (base : SectionStack) (active : String → Prop) (changed : Bool) (st : SectionStack) :
    Prop :=
  if changed then ∃ s, OneMore base s st ∧ ∀ name ∈ s.names, active name else st = base

theorem Pushing.change {base st : SectionStack} {active : String → Prop} {serial? : Option Nat}
    (h : Pushing base active serial? st) {name : String} (hname : active name)
    (value : Option String) :
    Pushing base active (some (st.change serial? name value).1)
      (st.change serial? name value).2 := by
  cases serial? with
  | none =>
    have hbase : st = base := h
    subst hbase
    exact ⟨[name], (oneMore_openSection st).change name value,
      fun other ho => List.mem_singleton.mp ho ▸ hname⟩
  | some serial =>
    obtain ⟨names, hmore, hactive⟩ := h
    refine ⟨names ++ [name], hmore.change name value, fun other ho => ?_⟩
    rcases List.mem_append.mp ho with ho | ho
    · exact hactive other ho
    · exact List.mem_singleton.mp ho ▸ hname

variable {ε σ : Type} {active : String → Prop} {K : σ → Prop} {mayFail : Prop} {hook : Hook ε σ}

/-- All names that are offered are active. -/
def AllActive (active : String → Prop) (offers : List Offer) : Prop :=
  ∀ offer ∈ offers, ∀ name, offer.1 = some name → active name

theorem pushOffer_pushing (aloof : Aloof active K mayFail hook) {base st : SectionStack}
    {serial? : Option Nat} (h : Pushing base active serial? st) {offer : Offer}
    (hoffer : ∀ name, offer.1 = some name → active name) {s : σ} (hk : K s) :
    (pushOffer hook serial? offer).EndsUnless mayFail (st, s) fun serial' t =>
      Pushing base active serial' t.1 ∧ K t.2 := by
  rw [Work.EndsUnless, ends_pushOffer]
  cases hc : st.changed? offer with
  | none => exact ⟨h, hk⟩
  | some name =>
    have hname : active name := hoffer name (changed?_eq_some_iff.mp hc).1
    have htold := aloof name hname offer.2 (st.change serial? name offer.2).2 s hk
    refine Work.Ends.imp htold ?_
    intro r t ht
    cases r with
    | ok => exact ⟨ht.1 ▸ h.change hname offer.2, ht.2⟩
    | error e => exact ht

theorem pushOffers_pushing (aloof : Aloof active K mayFail hook) {base st : SectionStack}
    {serial? : Option Nat} (h : Pushing base active serial? st) {offers : List Offer}
    (hoffers : AllActive active offers) {s : σ} (hk : K s) :
    (pushOffers hook serial? offers).EndsUnless mayFail (st, s) fun serial' t =>
      Pushing base active serial' t.1 ∧ K t.2 := by
  induction offers generalizing serial? st s with
  | nil => exact ⟨h, hk⟩
  | cons offer rest ih =>
    have hfirst := pushOffer_pushing aloof h (hoffers offer List.mem_cons_self) hk
    exact hfirst.bind fun _ _ ht =>
      ih ht.1 (fun other ho => hoffers other (List.mem_cons_of_mem _ ho)) ht.2

theorem push_pushed (aloof : Aloof active K mayFail hook) {offers : List Offer}
    (hoffers : AllActive active offers) (st : SectionStack) {s : σ} (hk : K s) :
    (push hook offers).EndsUnless mayFail (st, s) fun changed t =>
      Pushed st active changed t.1 ∧ K t.2 := by
  have hstart : Pushing st active none st := rfl
  refine (pushOffers_pushing aloof hstart hoffers hk).bind fun serial' t ht => ⟨?_, ht.2⟩
  cases serial' with
  | none => exact ht.1
  | some serial =>
    obtain ⟨names, hmore, hactive⟩ := ht.1
    exact ⟨_, hmore, hactive⟩

/-- A pop that ends well gives back what was open before its section was. -/
theorem pop_sameOpen (aloof : Aloof active K mayFail hook) {base st : SectionStack} {s : Section}
    (h : OneMore base s st) (hactive : ∀ name ∈ s.names, active name) {x : σ} (hk : K x) :
    (pop hook).EndsUnless mayFail (st, x) fun _ t => t.1.SameOpen base ∧ K t.2 := by
  obtain ⟨below, hclose, hbelow, _⟩ := closeSection?_eq_some h.sections
  rw [Work.EndsUnless, pop, Work.ends_bind, Work.ends_get]
  simp only [hclose]
  rw [Work.ends_bind, Work.ends_set]
  refine (removeNames_aloof aloof hactive below hk).imp fun _ t ht => ?_
  exact ⟨ht.1 ▸ h.sameOpen_dropFrames hclose hbelow, ht.2⟩

end SectionStack

end LogContext
