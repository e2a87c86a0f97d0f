import LogContext.HookScript
import LogContext.Proofs.StackFrames
import LogContext.Proofs.WorkOutcome

namespace LogContext

namespace SectionStack

variable {ε σ : Type} {calm : SectionStack × σ → Prop} {stirred : String → SectionStack × σ → Prop}

/-- What the stack does between two hook calls: it changes one property, which is stirred until its
hook was called, or takes a section off, which stirs nothing. -/
structure Invariant (calm : SectionStack × σ → Prop) (stirred : String → SectionStack × σ → Prop) :
    Prop where
  change : ∀ st s serial? name value, calm (st, s) → isBlank name = false →
    st.latest name ≠ value → stirred name ((st.change serial? name value).2, s)
  drop : ∀ st s name, calm (st, s) → stirred name (st.dropFrame name, s)
  close : ∀ st s closed below, calm (st, s) → st.closeSection? = some (closed, below) →
    calm (below, s)

/-- Told the latest value of a stirred property, the hook leaves all calm, however it ends. -/
def Settles (calm : SectionStack × σ → Prop) (stirred : String → SectionStack × σ → Prop)
    (hook : Hook ε σ) : Prop :=
  ∀ name st s, stirred name (st, s) →
    (hook name (st.latest name)).Ends (st, s) fun _ t => calm t

theorem Invariant.and {calm' : SectionStack × σ → Prop} {stirred' : String → SectionStack × σ → Prop}
    (inv : Invariant calm stirred) (inv' : Invariant calm' stirred') :
    Invariant (fun s => calm s ∧ calm' s) (fun name s => stirred name s ∧ stirred' name s) where
  change := fun st s serial? name value h hblank hne =>
    ⟨inv.change st s serial? name value h.1 hblank hne,
      inv'.change st s serial? name value h.2 hblank hne⟩
  drop := fun st s name h => ⟨inv.drop st s name h.1, inv'.drop st s name h.2⟩
  close := fun st s closed below h hc =>
    ⟨inv.close st s closed below h.1 hc, inv'.close st s closed below h.2 hc⟩

/-- The stack does not touch what is beside it. -/
theorem invariant_beside (K : σ → Prop) :
    Invariant (fun s : SectionStack × σ => K s.2) (fun _ s => K s.2) :=
  ⟨fun _ _ _ _ _ h _ _ => h, fun _ _ _ h => h, fun _ _ _ _ h _ => h⟩

/-- What is beside the stack may excuse that an invariant is broken. -/
theorem Invariant.unless (inv : Invariant calm stirred) (excused : σ → Prop) :
    Invariant (fun s => excused s.2 ∨ calm s) (fun name s => excused s.2 ∨ stirred name s) where
  change := fun st s serial? name value h hblank hne =>
    h.imp_right fun hc => inv.change st s serial? name value hc hblank hne
  drop := fun st s name h => h.imp_right (inv.drop st s name)
  close := fun st s closed below h hc =>
    h.imp_right fun hcalm => inv.close st s closed below hcalm hc

/-- Once a name is tracked, there always is one. -/
theorem invariant_hasTracked : Invariant (fun s : SectionStack × σ => s.1.hasTracked = true)
    (fun _ s => s.1.hasTracked = true) where
  change := fun st _ serial? name value _ _ _ => hasTracked_change st serial? name value
  drop := fun st _ name h => (hasTracked_dropFrame st name).trans h
  close := fun _ _ _ _ h hc => (hasTracked_of_closeSection? hc).trans h

theorem pushOffer_keeps (inv : Invariant calm stirred) {hook : Hook ε σ}
    (settles : Settles calm stirred hook) (serial? : Option Nat) (offer : Offer) :
    (pushOffer hook serial? offer).Keeps calm := by
  intro start hs
  obtain ⟨st, s⟩ := start
  rw [ends_pushOffer]
  cases hc : st.changed? offer with
  | none => exact hs
  | some name =>
    obtain ⟨_, hblank, hne⟩ := changed?_eq_some_iff.mp hc
    have htold : (st.change serial? name offer.2).2.latest name = offer.2 := by
      rw [latest_change, if_pos rfl]
    have hends := settles name _ s (inv.change st s serial? name offer.2 hs hblank hne)
    rw [htold] at hends
    exact hends

theorem pushOffers_keep (inv : Invariant calm stirred) {hook : Hook ε σ}
    (settles : Settles calm stirred hook) (serial? : Option Nat) (offers : List Offer) :
    (pushOffers hook serial? offers).Keeps calm := by
  induction offers generalizing serial? with
  | nil => exact Work.keeps_pure _
  | cons offer rest ih => exact (pushOffer_keeps inv settles serial? offer).bind ih

theorem push_keeps (inv : Invariant calm stirred) {hook : Hook ε σ}
    (settles : Settles calm stirred hook) (offers : List Offer) :
    (push hook offers).Keeps calm :=
  (pushOffers_keep inv settles none offers).bind fun _ => Work.keeps_pure _

theorem removeNames_keep (inv : Invariant calm stirred) {hook : Hook ε σ}
    (settles : Settles calm stirred hook) (names : List String) :
    (removeNames hook names).Keeps calm := by
  induction names with
  | nil => exact Work.keeps_pure _
  | cons name rest ih =>
    refine Work.Keeps.bind ?_ fun _ => ih
    intro start hs
    obtain ⟨st, s⟩ := start
    exact settles name (st.dropFrame name) s (inv.drop st s name hs)

theorem pop_keeps (inv : Invariant calm stirred) {hook : Hook ε σ}
    (settles : Settles calm stirred hook) : (pop hook).Keeps calm := by
  intro start hs
  obtain ⟨st, s⟩ := start
  simp only [pop, Work.ends_bind, Work.ends_get]
  split
  next => exact hs
  next closed below hc =>
    rw [Work.ends_bind, Work.ends_set]
    exact removeNames_keep inv settles closed.names _ (inv.close st s closed below hs hc)

/-- The view shows the latest value of each of the properties. -/
def Mirrors (names : String → Prop) (view : σ → Snapshot) (s : SectionStack × σ) : Prop :=
  ∀ name, names name → view s.2 name = s.1.latest name

/-- While a property is stirred, the view may be wrong about this one property. -/
theorem invariant_mirrors (names : String → Prop) (view : σ → Snapshot) :
    Invariant (Mirrors names view)
      (fun name => Mirrors (fun other => names other ∧ other ≠ name) view) where
  change := by
    intro st s serial? name value h _ _ other ho
    have hlatest := latest_change st serial? name other value
    rw [if_neg ho.2] at hlatest
    exact (h other ho.1).trans hlatest.symm
  drop := by
    intro st s name h other ho
    exact (h other ho.1).trans (latest_dropFrame_of_ne st ho.2).symm
  close := by
    intro st s closed below h hc name hn
    exact (h name hn).trans (latest_of_closeSection? hc name).symm

theorem push_silent_keeps (offers : List Offer) (s : σ) :
    (push (silent : Hook ε σ) offers).Keeps fun t => t.2 = s := by
  have settles : Settles (fun t : SectionStack × σ => t.2 = s) (fun _ t => t.2 = s)
      (silent : Hook ε σ) := fun _ _ _ h => h
  exact push_keeps (invariant_beside (· = s)) settles offers

end SectionStack

theorem StackCall.run_keeps {ε σ : Type} {calm : SectionStack × σ → Prop}
    {stirred : String → SectionStack × σ → Prop} (inv : SectionStack.Invariant calm stirred)
    {hooks : HookKind → SectionStack.Hook ε σ}
    (settles : ∀ kind, SectionStack.Settles calm stirred (hooks kind)) (call : StackCall) :
    (call.run hooks).Keeps calm := by
  cases call with
  | push offers => exact (SectionStack.push_keeps inv (settles .push) offers).map some
  | pop => exact (SectionStack.pop_keeps inv (settles .remove)).map fun _ => none

end LogContext
