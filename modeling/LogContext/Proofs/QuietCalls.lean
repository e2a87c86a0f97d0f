import LogContext.Proofs.OpenedSection
import LogContext.Proofs.SectionListings

namespace LogContext

namespace SectionStack

/-- What one more offer makes of a push that is under way: of the serial number it carries along, and
of the stack. -/
def consider (draft : Option Nat × SectionStack) (offer : Offer) : Option Nat × SectionStack :=
  match draft.2.changed? offer with
  | none => draft
  | some name =>
    let changed := draft.2.change draft.1 name offer.2
    (some changed.1, changed.2)

/-- What offers make of a stack if no hook interferes. -/
def offered (st : SectionStack) (offers : List Offer) : Option Nat × SectionStack :=
  offers.foldl consider (none, st)

/-- What a pop makes of a stack if no hook interferes. -/
def popped (st : SectionStack) : SectionStack :=
  match st.closeSection? with
  | none => st
  | some (closed, below) => below.dropFrames closed.names

/-- The answer to a call and what it makes of a stack if no hook interferes. -/
def called (st : SectionStack) : StackCall → Option Bool × SectionStack
  | .push offers => (some (st.offered offers).1.isSome, (st.offered offers).2)
  | .pop => (none, st.popped)

def calledAll (st : SectionStack) : List StackCall → List (Option Bool) × SectionStack
  | [] => ([], st)
  | call :: rest =>
    let after := (st.called call).2.calledAll rest
    ((st.called call).1 :: after.1, after.2)

/-- The properties that offers change, in order, once for each change. -/
def changedNames : Option Nat × SectionStack → List Offer → List String
  | _, [] => []
  | draft, offer :: rest =>
    (draft.2.changed? offer).toList ++ changedNames (consider draft offer) rest

theorem consider_of_none {draft : Option Nat × SectionStack} {offer : Offer}
    (h : draft.2.changed? offer = none) : consider draft offer = draft := by
  simp only [consider, h]

theorem consider_of_some {draft : Option Nat × SectionStack} {offer : Offer} {name : String}
    (h : draft.2.changed? offer = some name) :
    consider draft offer = (some (draft.2.change draft.1 name offer.2).1,
      (draft.2.change draft.1 name offer.2).2) := by
  simp only [consider, h]

/-- An offer under a usable name is what the property is then, changed or not. -/
theorem latest_consider (draft : Option Nat × SectionStack) (offer : Offer) (name : String) :
    (consider draft offer).2.latest name =
      if offer.1 = some name ∧ isBlank name = false then offer.2 else draft.2.latest name := by
  cases hc : draft.2.changed? offer with
  | none =>
    rw [consider_of_none hc]
    split
    next h =>
      by_contra hne
      have hchanged := changed?_eq_some_iff.mpr ⟨h.1, h.2, hne⟩
      rw [hc] at hchanged
      cases hchanged
    next => rfl
  | some changed =>
    obtain ⟨hname, husable, _⟩ := changed?_eq_some_iff.mp hc
    rw [consider_of_some hc, latest_change, hname]
    by_cases eq : name = changed
    · simp [eq, husable]
    · simp [eq, Ne.symm eq]

/-- What a push onto `base` has done after it changed these properties: nothing yet, or it has opened
a section that lists them, with their frames on top. -/
structure Drafted (base : SectionStack) (names : List String) (draft : Option Nat × SectionStack) :
    Prop where
  untouched : names = [] → draft = (none, base)
  opened : names ≠ [] → draft.1 = some base.issued ∧ draft.2.issued = base.issued + 1 ∧
    OneMore base ⟨base.issued, names⟩ draft.2
  depth : ∀ name, draft.2.depth name = base.depth name + names.count name

theorem drafted_start (base : SectionStack) : Drafted base [] (none, base) :=
  ⟨fun _ => rfl, fun h => absurd rfl h, fun _ => rfl⟩

theorem Drafted.consider {base : SectionStack} {names : List String}
    {draft : Option Nat × SectionStack} (h : Drafted base names draft) (offer : Offer) :
    Drafted base (names ++ (draft.2.changed? offer).toList) (consider draft offer) := by
  cases hc : draft.2.changed? offer with
  | none =>
    rw [consider_of_none hc, Option.toList_none, List.append_nil]
    exact h
  | some name =>
    rw [consider_of_some hc, Option.toList_some]
    refine ⟨fun hnil => by simp at hnil, fun _ => ?_, fun other => ?_⟩
    · by_cases hnames : names = []
      · rw [h.untouched hnames, hnames]
        exact ⟨rfl, rfl, (oneMore_openSection base).change name offer.2⟩
      · obtain ⟨hserial, hissued, hmore⟩ := h.opened hnames
        rw [hserial]
        exact ⟨rfl, hissued, hmore.change name offer.2⟩
    · rw [depth_change, h.depth, List.count_append, List.count_singleton, Nat.add_assoc]
      simp only [beq_iff_eq, eq_comm (a := other)]

theorem Drafted.foldl {base : SectionStack} {names : List String}
    {draft : Option Nat × SectionStack} (h : Drafted base names draft) (offers : List Offer) :
    Drafted base (names ++ changedNames draft offers) (offers.foldl SectionStack.consider draft) := by
  induction offers generalizing names draft with
  | nil =>
    rw [changedNames, List.append_nil]
    exact h
  | cons offer rest ih =>
    rw [changedNames, ← List.append_assoc, List.foldl_cons]
    exact ih (h.consider offer)

theorem drafted_offered (st : SectionStack) (offers : List Offer) :
    Drafted st (changedNames (none, st) offers) (st.offered offers) :=
  (drafted_start st).foldl offers

theorem Drafted.isSome_iff {base : SectionStack} {names : List String}
    {draft : Option Nat × SectionStack} (h : Drafted base names draft) :
    draft.1.isSome = true ↔ names ≠ [] := by
  by_cases hnames : names = []
  · simp [h.untouched hnames, hnames]
  · simp [(h.opened hnames).1, hnames]

variable {ε σ : Type} {hook : Hook ε σ}

theorem pushOffers_quiet (quiet : Quiet hook) (offers : List Offer)
    (draft : Option Nat × SectionStack) (s : σ) :
    ∃ t, pushOffers hook draft.1 offers (draft.2, s) =
      .ok (offers.foldl consider draft).1 ((offers.foldl consider draft).2, t) := by
  induction offers generalizing draft s with
  | nil => exact ⟨s, rfl⟩
  | cons offer rest ih =>
    have hfirst : ∃ t, pushOffer hook draft.1 offer (draft.2, s) =
        .ok (consider draft offer).1 ((consider draft offer).2, t) := by
      rw [pushOffer_apply]
      cases hc : draft.2.changed? offer with
      | none => exact ⟨s, by rw [consider_of_none hc]⟩
      | some name =>
        obtain ⟨t, ht⟩ := quiet name offer.2 (draft.2.change draft.1 name offer.2).2 s
        exact ⟨t, by simp only [ht, consider_of_some hc]⟩
    obtain ⟨t, ht⟩ := hfirst
    obtain ⟨u, hu⟩ := ih (consider draft offer) t
    refine ⟨u, ?_⟩
    simp only [pushOffers, bind, EStateM.bind, ht, hu, List.foldl_cons]

theorem push_quiet (quiet : Quiet hook) (offers : List Offer) (st : SectionStack) (s : σ) :
    ∃ t, push hook offers (st, s) = .ok (st.offered offers).1.isSome ((st.offered offers).2, t) := by
  obtain ⟨t, ht⟩ := pushOffers_quiet quiet offers (none, st) s
  refine ⟨t, ?_⟩
  simp only [push, bind, EStateM.bind, ht]
  rfl

theorem pop_quiet (quiet : Quiet hook) (st : SectionStack) (s : σ) :
    ∃ t, pop hook (st, s) = .ok () (st.popped, t) := by
  rw [pop, Work.get_bind, popped]
  cases st.closeSection? with
  | none => exact ⟨s, rfl⟩
  | some pair => exact removeNames_quiet quiet pair.1.names pair.2 s

end SectionStack

open SectionStack

theorem StackCall.run_quiet {ε σ : Type} {hooks : HookKind → Hook ε σ}
    (quiet : ∀ kind, Quiet (hooks kind)) (call : StackCall) (st : SectionStack) (s : σ) :
    ∃ t, call.run hooks (st, s) = .ok (st.called call).1 ((st.called call).2, t) := by
  cases call with
  | push offers =>
    obtain ⟨t, ht⟩ := push_quiet (quiet .push) offers st s
    exact ⟨t, by simp only [StackCall.run, Functor.map, EStateM.map, ht, called]⟩
  | pop =>
    obtain ⟨t, ht⟩ := pop_quiet (quiet .remove) st s
    exact ⟨t, by simp only [StackCall.run, Functor.map, EStateM.map, ht, called]⟩

theorem StackCall.runAll_quiet {ε σ : Type} {hooks : HookKind → Hook ε σ}
    (quiet : ∀ kind, Quiet (hooks kind)) (calls : List StackCall) (st : SectionStack) (s : σ) :
    ∃ t, StackCall.runAll hooks calls (st, s) =
      .ok (st.calledAll calls).1 ((st.calledAll calls).2, t) := by
  induction calls generalizing st s with
  | nil => exact ⟨s, rfl⟩
  | cons call rest ih =>
    obtain ⟨t, ht⟩ := call.run_quiet quiet st s
    obtain ⟨u, hu⟩ := ih (st.called call).2 t
    refine ⟨u, ?_⟩
    simp only [StackCall.runAll, bind, EStateM.bind, ht, hu, calledAll]
    rfl

end LogContext
