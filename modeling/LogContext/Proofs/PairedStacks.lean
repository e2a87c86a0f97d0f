import LogContext.Proofs.StackFrames

namespace LogContext

open SectionStack

/-- Equal first parts, and related second parts. -/
def Paired {ρ σ τ : Type} (R : σ → τ → Prop) (s : ρ × σ) (t : ρ × τ) : Prop :=
  t.1 = s.1 ∧ R s.2 t.2

namespace Work

variable {ε ρ σ τ α : Type} {R : σ → τ → Prop}

theorem Matches.beside {work : Work ε σ α} {other : Work ε τ α} (h : Matches R work other) :
    Matches (Paired R) (work.beside : Work ε (ρ × σ) α) other.beside := by
  intro s t hst
  obtain ⟨hfirst, hrest⟩ := hst
  rw [ends_beside]
  refine (h s.2 t.2 hrest).imp ?_
  intro r s' hr
  rw [ends_beside]
  exact hr.imp fun _ _ ht => ⟨ht.1, hfirst, ht.2⟩

theorem beside_matches (work : Work ε σ α) :
    Matches (fun (s : ρ × σ) t => s.2 = t) work.beside work := by
  intro s t hst
  subst hst
  rw [ends_beside]
  exact ends_iff.mpr (ends_iff.mpr ⟨rfl, rfl⟩)

end Work

namespace SectionStack

variable {ε σ τ : Type} {R : σ → τ → Prop} {hook : Hook ε σ} {other : Hook ε τ}

/-- The hooks end alike and take paired states to paired states. -/
def Hook.Alike (R : σ → τ → Prop) (hook : Hook ε σ) (other : Hook ε τ) : Prop :=
  ∀ name value, Work.Matches (Paired R) (hook name value) (other name value)

theorem alike_silent : Hook.Alike R (silent : Hook ε σ) silent :=
  fun _ _ => Work.matches_pure ()

theorem pushOffer_alike (alike : Hook.Alike R hook other) (serial? : Option Nat) (offer : Offer) :
    Work.Matches (Paired R) (pushOffer hook serial? offer) (pushOffer other serial? offer) := by
  intro s t h
  obtain ⟨st, s⟩ := s
  obtain ⟨st', t⟩ := t
  obtain ⟨hstack, hrest⟩ := h
  obtain rfl : st' = st := hstack
  cases hc : st'.changed? offer with
  | none =>
    rw [ends_pushOffer, hc]
    simp only
    rw [ends_pushOffer, hc]
    exact ⟨rfl, rfl, hrest⟩
  | some name =>
    rw [ends_pushOffer, hc]
    refine (alike name offer.2 ((st'.change serial? name offer.2).2, s) (_, t) ⟨rfl, hrest⟩).imp ?_
    intro r s' hr
    rw [ends_pushOffer, hc]
    refine hr.imp ?_
    intro r' t' hr'
    obtain ⟨heq, hpaired⟩ := hr'
    exact ⟨congrArg _ heq, hpaired⟩

theorem pushOffers_alike (alike : Hook.Alike R hook other) (serial? : Option Nat)
    (offers : List Offer) :
    Work.Matches (Paired R) (pushOffers hook serial? offers) (pushOffers other serial? offers) := by
  induction offers generalizing serial? with
  | nil => exact Work.matches_pure _
  | cons offer rest ih => exact (pushOffer_alike alike serial? offer).bind ih

theorem push_alike (alike : Hook.Alike R hook other) (offers : List Offer) :
    Work.Matches (Paired R) (push hook offers) (push other offers) :=
  (pushOffers_alike alike none offers).bind fun _ => Work.matches_pure _

theorem removeName_alike (alike : Hook.Alike R hook other) (name : String) :
    Work.Matches (Paired R) (removeName hook name) (removeName other name) := by
  intro s t h
  obtain ⟨st, s⟩ := s
  obtain ⟨st', t⟩ := t
  obtain ⟨hstack, hrest⟩ := h
  obtain rfl : st' = st := hstack
  exact alike name ((st'.dropFrame name).latest name) (st'.dropFrame name, s) (_, t) ⟨rfl, hrest⟩

theorem removeNames_alike (alike : Hook.Alike R hook other) (names : List String) :
    Work.Matches (Paired R) (removeNames hook names) (removeNames other names) := by
  induction names with
  | nil => exact Work.matches_pure _
  | cons name rest ih => exact (removeName_alike alike name).bind fun _ => ih

theorem pop_alike (alike : Hook.Alike R hook other) :
    Work.Matches (Paired R) (pop hook) (pop other) := by
  intro s t h
  obtain ⟨st, s⟩ := s
  obtain ⟨st', t⟩ := t
  obtain ⟨hstack, hrest⟩ := h
  obtain rfl : st' = st := hstack
  simp only [pop, Work.ends_bind, Work.ends_get]
  split
  next => exact ⟨rfl, rfl, hrest⟩
  next closed below _ =>
    simp only [Work.ends_bind, Work.ends_set]
    exact removeNames_alike alike closed.names (below, s) (below, t) ⟨rfl, hrest⟩

end SectionStack

end LogContext
