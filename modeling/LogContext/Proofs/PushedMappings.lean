import LogContext.Proofs.QuietCalls
import Mathlib.Data.List.Forall2
import Mathlib.Data.List.Perm.Basic

namespace LogContext

/-- The same section; the one with this serial number may list its names in another order. -/
def Section.Reordered (serial : Nat) (s t : Section) : Prop :=
  s.serial = t.serial ∧ if s.serial = serial then s.names.Perm t.names else s.names = t.names

theorem Section.Reordered.refl (serial : Nat) (s : Section) : s.Reordered serial s := by
  refine ⟨rfl, ?_⟩
  split
  next => exact List.Perm.refl _
  next => rfl

theorem Section.Reordered.perm {serial : Nat} {s t : Section} (h : s.Reordered serial t) :
    s.names.Perm t.names := by
  have hnames := h.2
  split at hnames
  next => exact hnames
  next => exact hnames ▸ List.Perm.refl _

/-- Both sections list one more name if they have the serial number of the push. -/
theorem Section.Reordered.enlist {serial : Nat} {s t : Section} (h : s.Reordered serial t)
    (own : Nat) (name : String) :
    Section.Reordered serial (if s.serial = own then { s with names := s.names ++ [name] } else s)
      (if t.serial = own then { t with names := t.names ++ [name] } else t) := by
  obtain ⟨hserial, hnames⟩ := h
  rw [← hserial]
  split
  next =>
    refine ⟨rfl, ?_⟩
    simp only
    split at hnames
    next hs => rw [if_pos hs]; exact hnames.append_right [name]
    next hs => rw [if_neg hs, hnames]
  next => exact ⟨hserial, hnames⟩

namespace SectionStack

/-- An offer that names another property changes what it would have changed. -/
theorem changed?_consider_of_ne (draft : Option Nat × SectionStack) {offer other : Offer}
    (h : offer.1 ≠ other.1) : (consider draft offer).2.changed? other = draft.2.changed? other := by
  refine Option.ext fun name => ?_
  rw [changed?_eq_some_iff, changed?_eq_some_iff]
  refine and_congr_right fun hname => ?_
  rw [latest_consider, if_neg fun hn => h (hn.1.trans hname.symm)]

theorem changed?_consider_of_distinct (draft : Option Nat × SectionStack) {offer : Offer}
    {rest : List Offer} (distinct : ((offer :: rest).map Prod.fst).Nodup) :
    ∀ other ∈ rest, (consider draft offer).2.changed? other = draft.2.changed? other := by
  intro other ho
  refine changed?_consider_of_ne draft fun heq => ?_
  rw [List.map_cons, List.nodup_cons] at distinct
  exact distinct.1 (heq ▸ List.mem_map_of_mem ho)

/-- With pairwise distinct names, what changes is what differs from the values before the push. -/
theorem changedNames_of_distinct {offers : List Offer} (distinct : (offers.map Prod.fst).Nodup)
    (draft : Option Nat × SectionStack) :
    changedNames draft offers = offers.filterMap draft.2.changed? := by
  induction offers generalizing draft with
  | nil => rfl
  | cons offer rest ih =>
    rw [changedNames, ih (List.nodup_cons.mp distinct).2,
      List.filterMap_congr (changed?_consider_of_distinct draft distinct), List.filterMap_cons]
    cases draft.2.changed? offer <;> rfl

theorem frames_consider (draft : Option Nat × SectionStack) (offer : Offer) (name : String) :
    (consider draft offer).2.frames name =
      if draft.2.changed? offer = some name then Frame.ofValue offer.2 :: draft.2.frames name
      else draft.2.frames name := by
  cases hc : draft.2.changed? offer with
  | none => rw [consider_of_none hc, if_neg (by simp)]
  | some changed =>
    rw [consider_of_some hc, frames_change]
    by_cases heq : name = changed
    · rw [if_pos heq, if_pos (by rw [heq]), heq]
    · rw [if_neg heq, if_neg fun h => heq (Option.some.inj h).symm]

theorem frames_foldl_of_unchanged {offers : List Offer} (distinct : (offers.map Prod.fst).Nodup)
    (draft : Option Nat × SectionStack) {name : String}
    (h : ∀ offer ∈ offers, draft.2.changed? offer ≠ some name) :
    (offers.foldl consider draft).2.frames name = draft.2.frames name := by
  induction offers generalizing draft with
  | nil => rfl
  | cons offer rest ih =>
    have hrest := changed?_consider_of_distinct draft distinct
    rw [List.foldl_cons, ih (List.nodup_cons.mp distinct).2, frames_consider,
      if_neg (h offer List.mem_cons_self)]
    intro other ho
    rw [hrest other ho]
    exact h other (List.mem_cons_of_mem _ ho)

theorem frames_foldl_of_changed {offers : List Offer} (distinct : (offers.map Prod.fst).Nodup)
    (draft : Option Nat × SectionStack) {offer : Offer} {name : String} (hmem : offer ∈ offers)
    (h : draft.2.changed? offer = some name) :
    (offers.foldl consider draft).2.frames name = Frame.ofValue offer.2 :: draft.2.frames name := by
  induction offers generalizing draft with
  | nil => exact nomatch hmem
  | cons first rest ih =>
    have hrest := changed?_consider_of_distinct draft distinct
    have hname := (changed?_eq_some_iff.mp h).1
    rw [List.map_cons, List.nodup_cons] at distinct
    rw [List.foldl_cons]
    rcases List.mem_cons.mp hmem with rfl | hm
    · -- the other offers do not name the property
      rw [frames_foldl_of_unchanged distinct.2, frames_consider, if_pos h]
      intro other ho hother
      rw [hrest other ho] at hother
      refine distinct.1 ?_
      rw [hname, ← (changed?_eq_some_iff.mp hother).1]
      exact List.mem_map_of_mem ho
    · rw [ih distinct.2 _ hm ((hrest offer hm).trans h), frames_consider, if_neg]
      intro hfirst
      refine distinct.1 ?_
      rw [(changed?_eq_some_iff.mp hfirst).1, ← hname]
      exact List.mem_map_of_mem hm

/-- Names are tracked in the order in which they were first changed. -/
theorem trackedNames_consider (draft : Option Nat × SectionStack) (offer : Offer) :
    (consider draft offer).2.trackedNames = draft.2.trackedNames ++
      (draft.2.changed? offer).toList.filter (· ∉ draft.2.trackedNames) := by
  cases hc : draft.2.changed? offer with
  | none => rw [consider_of_none hc, Option.toList_none, List.filter_nil, List.append_nil]
  | some name =>
    rw [consider_of_some hc, trackedNames_change]
    by_cases hname : name ∈ draft.2.trackedNames <;> simp [hname]

theorem trackedNames_foldl (offers : List Offer) (draft : Option Nat × SectionStack) :
    ∃ new, (offers.foldl consider draft).2.trackedNames = draft.2.trackedNames ++ new ∧
      ∀ name, name ∈ draft.2.trackedNames ++ new ↔
        name ∈ draft.2.trackedNames ∨ name ∈ changedNames draft offers := by
  induction offers generalizing draft with
  | nil => exact ⟨[], (List.append_nil _).symm, fun name => by simp [changedNames]⟩
  | cons offer rest ih =>
    obtain ⟨new, htracked, hnew⟩ := ih (consider draft offer)
    rw [trackedNames_consider, List.append_assoc] at htracked hnew
    refine ⟨_, htracked, fun name => (hnew name).trans ?_⟩
    simp only [List.mem_append, List.mem_filter, decide_eq_true_eq, changedNames]
    by_cases hname : name ∈ draft.2.trackedNames <;> simp [hname]

/-- What two orders of the same offers to `base` leave, at once and after further calls: the section
they opened may list its names in another order, and the names that it made tracked may stand in
another order. All else is the same. -/
structure Reordered (base a b : SectionStack) : Prop where
  frames : a.frames = b.frames
  issued : a.issued = b.issued
  sections : List.Forall₂ (Section.Reordered base.issued) a.sections b.sections
  tracked : ∃ new new' later, new.Perm new' ∧
    a.trackedNames = base.trackedNames ++ new ++ later ∧
    b.trackedNames = base.trackedNames ++ new' ++ later

namespace Reordered

variable {base a b : SectionStack}

theorem changed? (h : base.Reordered a b) : a.changed? = b.changed? := by
  funext offer
  refine Option.ext fun name => ?_
  rw [changed?_eq_some_iff, changed?_eq_some_iff, latest, latest, top?, top?, h.frames]

theorem mem_trackedNames (h : base.Reordered a b) (name : String) :
    name ∈ a.trackedNames ↔ name ∈ b.trackedNames := by
  obtain ⟨new, new', later, hperm, ha, hb⟩ := h.tracked
  rw [ha, hb]
  simp only [List.mem_append, hperm.mem_iff]

theorem openSection (h : base.Reordered a b) : base.Reordered a.openSection b.openSection := by
  refine ⟨h.frames, congrArg (· + 1) h.issued, ?_, h.tracked⟩
  rw [sections_openSection, sections_openSection, h.issued]
  exact .cons (Section.Reordered.refl _ _) h.sections

theorem ownSection (h : base.Reordered a b) (serial? : Option Nat) :
    (a.ownSection serial?).1 = (b.ownSection serial?).1 ∧
      base.Reordered (a.ownSection serial?).2 (b.ownSection serial?).2 := by
  cases serial? with
  | none => exact ⟨h.issued, h.openSection⟩
  | some => exact ⟨rfl, h⟩

theorem enlist (h : base.Reordered a b) (serial : Nat) (name : String) :
    base.Reordered (a.enlist serial name) (b.enlist serial name) := by
  refine ⟨h.frames, h.issued, ?_, h.tracked⟩
  exact List.forall₂_map_left_iff.mpr (List.forall₂_map_right_iff.mpr
    (h.sections.imp fun _ _ hs => hs.enlist serial name))

theorem pushFrame (h : base.Reordered a b) (name : String) (frame : Frame) :
    base.Reordered (a.pushFrame name frame) (b.pushFrame name frame) := by
  refine ⟨?_, h.issued, h.sections, ?_⟩
  · funext other
    simp only [frames_pushFrame, h.frames]
  · obtain ⟨new, new', later, hperm, ha, hb⟩ := h.tracked
    simp only [SectionStack.pushFrame, trackedNames_setFrames, h.mem_trackedNames]
    split
    next => exact ⟨new, new', later, hperm, ha, hb⟩
    next =>
      refine ⟨new, new', later ++ [name], hperm, ?_, ?_⟩
      · rw [ha, List.append_assoc _ later]
      · rw [hb, List.append_assoc _ later]

theorem change (h : base.Reordered a b) (serial? : Option Nat) (name : String)
    (value : Option String) :
    (a.change serial? name value).1 = (b.change serial? name value).1 ∧
      base.Reordered (a.change serial? name value).2 (b.change serial? name value).2 := by
  obtain ⟨hserial, hown⟩ := h.ownSection serial?
  refine ⟨hserial, ?_⟩
  simp only [SectionStack.change, hserial]
  exact (hown.enlist _ name).pushFrame name _

variable {draft draft' : Option Nat × SectionStack}

theorem consider (hserial : draft.1 = draft'.1) (h : base.Reordered draft.2 draft'.2)
    (offer : Offer) :
    (consider draft offer).1 = (SectionStack.consider draft' offer).1 ∧
      base.Reordered (SectionStack.consider draft offer).2
        (SectionStack.consider draft' offer).2 := by
  cases hc : draft.2.changed? offer with
  | none =>
    rw [consider_of_none hc, consider_of_none (h.changed? ▸ hc)]
    exact ⟨hserial, h⟩
  | some name =>
    rw [consider_of_some hc, consider_of_some (h.changed? ▸ hc), hserial]
    obtain ⟨hown, hchange⟩ := h.change draft'.1 name offer.2
    exact ⟨congrArg some hown, hchange⟩

theorem foldl (hserial : draft.1 = draft'.1) (h : base.Reordered draft.2 draft'.2)
    (offers : List Offer) :
    (offers.foldl SectionStack.consider draft).1 =
        (offers.foldl SectionStack.consider draft').1 ∧
      base.Reordered (offers.foldl SectionStack.consider draft).2
        (offers.foldl SectionStack.consider draft').2 := by
  induction offers generalizing draft draft' with
  | nil => exact ⟨hserial, h⟩
  | cons offer rest ih =>
    obtain ⟨hfirst, hstack⟩ := consider hserial h offer
    exact ih hfirst hstack

theorem closeSection? (h : base.Reordered a b) :
    (a.closeSection? = none ∧ b.closeSection? = none) ∨
      ∃ closed below closed' below', a.closeSection? = some (closed, below) ∧
        b.closeSection? = some (closed', below') ∧ closed.Reordered base.issued closed' ∧
        base.Reordered below below' := by
  have hsections := h.sections
  cases has : a.sections with
  | nil =>
    rw [has, List.forall₂_nil_left_iff] at hsections
    exact Or.inl ⟨closeSection?_eq_none has, closeSection?_eq_none hsections⟩
  | cons closed rest =>
    rw [has, List.forall₂_cons_left_iff] at hsections
    obtain ⟨closed', rest', hclosed, hrest, hbs⟩ := hsections
    obtain ⟨below, ha, rfl, _⟩ := closeSection?_eq_some has
    obtain ⟨below', hb, rfl, _⟩ := closeSection?_eq_some hbs
    refine Or.inr ⟨closed, below, closed', below', ha, hb, hclosed, ?_, ?_, hrest, ?_⟩
    · funext name
      rw [frames_of_closeSection? ha, frames_of_closeSection? hb, h.frames]
    · rw [(kept_of_closeSection? ha).2, (kept_of_closeSection? hb).2, h.issued]
    · rw [(kept_of_closeSection? ha).1, (kept_of_closeSection? hb).1]
      exact h.tracked

theorem dropFrames (h : base.Reordered a b) {names names' : List String} (perm : names.Perm names') :
    base.Reordered (a.dropFrames names) (b.dropFrames names') := by
  refine ⟨?_, ?_, ?_, ?_⟩
  · funext name
    rw [frames_dropFrames, frames_dropFrames, h.frames, perm.count_eq]
  · rw [issued_dropFrames, issued_dropFrames, h.issued]
  · rw [sections_dropFrames, sections_dropFrames]
    exact h.sections
  · rw [trackedNames_dropFrames, trackedNames_dropFrames]
    exact h.tracked

theorem popped (h : base.Reordered a b) : base.Reordered a.popped b.popped := by
  rcases h.closeSection? with ⟨ha, hb⟩ | ⟨closed, below, closed', below', ha, hb, hsection, hbelow⟩
  · simp only [SectionStack.popped, ha, hb]
    exact h
  · simp only [SectionStack.popped, ha, hb]
    exact hbelow.dropFrames hsection.perm

theorem called (h : base.Reordered a b) (call : StackCall) :
    (a.called call).1 = (b.called call).1 ∧ base.Reordered (a.called call).2 (b.called call).2 := by
  cases call with
  | push offers =>
    have hstart : ((none : Option Nat), a).1 = ((none : Option Nat), b).1 := rfl
    obtain ⟨hserial, hstack⟩ := foldl hstart h offers
    exact ⟨congrArg (fun serial? => some (Option.isSome serial?)) hserial, hstack⟩
  | pop => exact ⟨rfl, h.popped⟩

theorem calledAll (h : base.Reordered a b) (calls : List StackCall) :
    (a.calledAll calls).1 = (b.calledAll calls).1 ∧
      base.Reordered (a.calledAll calls).2 (b.calledAll calls).2 := by
  induction calls generalizing a b with
  | nil => exact ⟨rfl, h⟩
  | cons call rest ih =>
    obtain ⟨hanswer, hfirst⟩ := h.called call
    obtain ⟨hanswers, hrest⟩ := ih hfirst
    exact ⟨congrArg₂ List.cons hanswer hanswers, hrest⟩

end Reordered

variable {st : SectionStack} {offers offers' : List Offer}

theorem frames_offered_of_perm (distinct : (offers.map Prod.fst).Nodup) (perm : offers.Perm offers') :
    (st.offered offers).2.frames = (st.offered offers').2.frames := by
  have distinct' := (perm.map Prod.fst).nodup_iff.mp distinct
  funext name
  by_cases h : ∃ offer ∈ offers, st.changed? offer = some name
  · obtain ⟨offer, hm, hc⟩ := h
    exact (frames_foldl_of_changed distinct (none, st) hm hc).trans
      (frames_foldl_of_changed distinct' (none, st) (perm.mem_iff.mp hm) hc).symm
  · have hnone : ∀ offer ∈ offers, st.changed? offer ≠ some name := fun offer hm hc =>
      h ⟨offer, hm, hc⟩
    exact (frames_foldl_of_unchanged distinct (none, st) hnone).trans
      (frames_foldl_of_unchanged distinct' (none, st) fun offer hm =>
        hnone offer (perm.mem_iff.mpr hm)).symm

theorem tracked_offered_of_perm
    (perm : (changedNames (none, st) offers).Perm (changedNames (none, st) offers')) :
    ∃ new new', new.Perm new' ∧ (st.offered offers).2.trackedNames = st.trackedNames ++ new ∧
      (st.offered offers').2.trackedNames = st.trackedNames ++ new' := by
  obtain ⟨new, htracked, hmem⟩ := trackedNames_foldl offers (none, st)
  obtain ⟨new', htracked', hmem'⟩ := trackedNames_foldl offers' (none, st)
  refine ⟨new, new', ?_, htracked, htracked'⟩
  have hnodup : (st.trackedNames ++ new).Nodup := htracked ▸ OrderedMap.distinct _
  have hnodup' : (st.trackedNames ++ new').Nodup := htracked' ▸ OrderedMap.distinct _
  refine (List.perm_append_left_iff st.trackedNames).mp ?_
  refine (List.perm_ext_iff_of_nodup hnodup hnodup').mpr fun name => ?_
  rw [hmem, hmem', perm.mem_iff]

/-- The order of offers with pairwise distinct names matters only for the order of what they list. -/
theorem reordered_offered (st : SectionStack) (distinct : (offers.map Prod.fst).Nodup)
    (perm : offers.Perm offers') :
    (st.offered offers).1 = (st.offered offers').1 ∧
      st.Reordered (st.offered offers).2 (st.offered offers').2 := by
  have hdrafted := drafted_offered st offers
  have hdrafted' := drafted_offered st offers'
  have hchanged : (changedNames (none, st) offers).Perm (changedNames (none, st) offers') := by
    rw [changedNames_of_distinct distinct,
      changedNames_of_distinct ((perm.map Prod.fst).nodup_iff.mp distinct)]
    exact perm.filterMap st.changed?
  have hsame : List.Forall₂ (Section.Reordered st.issued) st.sections st.sections :=
    List.forall₂_same.mpr fun s _ => Section.Reordered.refl st.issued s
  by_cases hnone : changedNames (none, st) offers = []
  · rw [hdrafted.untouched hnone, hdrafted'.untouched (hnone ▸ hchanged).nil_eq.symm]
    exact ⟨rfl, rfl, rfl, hsame, [], [], [], List.Perm.refl _, by simp, by simp⟩
  · have hnone' : changedNames (none, st) offers' ≠ [] := fun h => hnone (h ▸ hchanged).eq_nil
    obtain ⟨hserial, hissued, hmore⟩ := hdrafted.opened hnone
    obtain ⟨hserial', hissued', hmore'⟩ := hdrafted'.opened hnone'
    refine ⟨hserial.trans hserial'.symm, frames_offered_of_perm distinct perm,
      hissued.trans hissued'.symm, ?_, ?_⟩
    · rw [hmore.sections, hmore'.sections]
      refine .cons ⟨rfl, ?_⟩ hsame
      rw [if_pos rfl]
      exact hchanged
    · obtain ⟨new, new', hnew, htracked, htracked'⟩ := tracked_offered_of_perm hchanged
      exact ⟨new, new', [], hnew, by rw [htracked, List.append_nil],
        by rw [htracked', List.append_nil]⟩

theorem isSome_offered_iff (distinct : (offers.map Prod.fst).Nodup) :
    (st.offered offers).1.isSome = true ↔
      ∃ name value, (some name, value) ∈ offers ∧ isBlank name = false ∧ st.latest name ≠ value := by
  rw [(drafted_offered st offers).isSome_iff, changedNames_of_distinct distinct]
  constructor
  · intro h
    obtain ⟨name, hname⟩ := List.exists_mem_of_ne_nil _ h
    obtain ⟨⟨name?, value⟩, hm, hc⟩ := List.mem_filterMap.mp hname
    obtain ⟨rfl, husable, hne⟩ := changed?_eq_some_iff.mp hc
    exact ⟨name, value, hm, husable, hne⟩
  · rintro ⟨name, value, hm, husable, hne⟩
    have hc : st.changed? (some name, value) = some name :=
      changed?_eq_some_iff.mpr ⟨rfl, husable, hne⟩
    exact List.ne_nil_of_mem (List.mem_filterMap.mpr ⟨_, hm, hc⟩)

/-- After the push nothing that was offered differs any more. -/
theorem changed?_offered_of_distinct (distinct : (offers.map Prod.fst).Nodup) :
    ∀ offer ∈ offers, (st.offered offers).2.changed? offer = none := by
  intro offer hm
  refine Option.eq_none_iff_forall_ne_some.mpr fun name hc => ?_
  obtain ⟨hname, husable, hne⟩ := changed?_eq_some_iff.mp hc
  refine hne ?_
  by_cases hchanged : st.changed? offer = some name
  · rw [offered, latest, top?, frames_foldl_of_changed distinct (none, st) hm hchanged]
    exact Frame.value?_ofValue offer.2
  · have hunchanged : ∀ other ∈ offers, st.changed? other ≠ some name := by
      intro other ho hother
      have heq := List.inj_on_of_nodup_map distinct ho hm
        ((changed?_eq_some_iff.mp hother).1.trans hname.symm)
      exact hchanged (heq ▸ hother)
    rw [offered, latest, top?, frames_foldl_of_unchanged distinct (none, st) hunchanged]
    by_contra hdiffers
    exact hchanged (changed?_eq_some_iff.mpr ⟨hname, husable, hdiffers⟩)

variable {ε σ : Type}

theorem push_of_unchanged (hook : Hook ε σ) (h : ∀ offer ∈ offers, st.changed? offer = none) (s : σ) :
    push hook offers (st, s) = .ok false (st, s) := by
  have hall : pushOffers hook none offers (st, s) = .ok none (st, s) := by
    induction offers with
    | nil => rfl
    | cons offer rest ih =>
      simp only [pushOffers, bind, EStateM.bind, pushOffer_apply, h offer List.mem_cons_self]
      exact ih fun other ho => h other (List.mem_cons_of_mem _ ho)
  simp only [push, bind, EStateM.bind, hall]
  rfl

/-- A push of offers with pairwise distinct names says whether any usable one differs from the value
before it. The same push again changes nothing. In another order the offers get the same answer, and
neither then nor after further calls, which give the same answers too, do the stacks differ but in the
order of what the push listed. -/
theorem mapping_push_is_unordered {hooks : HookKind → Hook ε σ} (quiet : ∀ kind, Quiet (hooks kind))
    (distinct : (offers.map Prod.fst).Nodup) (perm : offers.Perm offers') (calls : List StackCall)
    (st : SectionStack) (s : σ) :
    ∃ changed st₁ t₁ st₂ t₂,
      push (hooks .push) offers (st, s) = .ok changed (st₁, t₁) ∧
      (changed = true ↔ ∃ name value, (some name, value) ∈ offers ∧ isBlank name = false ∧
        st.latest name ≠ value) ∧
      (∀ u, push (hooks .push) offers (st₁, u) = .ok false (st₁, u)) ∧
      push (hooks .push) offers' (st, s) = .ok changed (st₂, t₂) ∧ st.Reordered st₁ st₂ ∧
      ∃ answers st₃ t₃ st₄ t₄,
        StackCall.runAll hooks calls (st₁, t₁) = .ok answers (st₃, t₃) ∧
        StackCall.runAll hooks calls (st₂, t₂) = .ok answers (st₄, t₄) ∧ st.Reordered st₃ st₄ := by
  obtain ⟨t₁, hfirst⟩ := push_quiet (quiet .push) offers st s
  obtain ⟨t₂, hsecond⟩ := push_quiet (quiet .push) offers' st s
  obtain ⟨hserial, hstacks⟩ := reordered_offered st distinct perm
  obtain ⟨t₃, hthird⟩ := StackCall.runAll_quiet quiet calls (st.offered offers).2 t₁
  obtain ⟨t₄, hfourth⟩ := StackCall.runAll_quiet quiet calls (st.offered offers').2 t₂
  obtain ⟨hanswers, hlater⟩ := hstacks.calledAll calls
  rw [← hserial] at hsecond
  rw [← hanswers] at hfourth
  exact ⟨_, _, t₁, _, t₂, hfirst, isSome_offered_iff distinct,
    fun u => push_of_unchanged (hooks .push) (changed?_offered_of_distinct distinct) u, hsecond,
    hstacks, _, _, t₃, _, t₄, hthird, hfourth, hlater⟩

/-- Two orders of a mapping over a section that has set one of its properties; the stacks are used
again afterwards. -/
theorem mapping_push_is_unordered_reused :
    let hooks : HookKind → Hook Empty Unit := fun _ => silent
    let st := (empty.offered [(some "b", some "1")]).2
    let offers := [(some "a", some "1"), (some " ", some "x"), (some "b", none), (some "c", none)]
    let offers' := [(some "b", none), (some "c", none), (some " ", some "x"), (some "a", some "1")]
    let calls := [.push [(some "b", some "2")], .pop, .pop]
    (st.offered offers).2.openNames = [["a", "b"], ["b"]] ∧
      (st.offered offers').2.openNames = [["b", "a"], ["b"]] ∧
      ∃ st₁ st₂ answers st₃ st₄, push (hooks .push) offers (st, ()) = .ok true (st₁, ()) ∧
        push (hooks .push) offers' (st, ()) = .ok true (st₂, ()) ∧ st.Reordered st₁ st₂ ∧
        StackCall.runAll hooks calls (st₁, ()) = .ok answers (st₃, ()) ∧
        StackCall.runAll hooks calls (st₂, ()) = .ok answers (st₄, ()) ∧ st.Reordered st₃ st₄ := by
  intro hooks st offers offers' calls
  have hquiet : ∀ kind, Quiet (hooks kind) := fun _ => quiet_silent
  have distinct : (offers.map Prod.fst).Nodup := by decide +kernel
  have perm : offers.Perm offers' := by decide +kernel
  obtain ⟨changed, st₁, _, st₂, _, hfirst, hflag, _, hsecond, hstacks, answers, st₃, _, st₄, _,
    hthird, hfourth, hlater⟩ := mapping_push_is_unordered hquiet distinct perm calls st ()
  obtain rfl : changed = true :=
    hflag.mpr ⟨"a", some "1", List.mem_cons_self, by decide +kernel, by decide +kernel⟩
  exact ⟨by decide +kernel, by decide +kernel, st₁, st₂, answers, st₃, st₄, hfirst, hsecond,
    hstacks, hthird, hfourth, hlater⟩

end SectionStack

end LogContext
