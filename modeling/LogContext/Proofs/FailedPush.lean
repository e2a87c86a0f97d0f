import LogContext.Proofs.QuietCalls

namespace LogContext

namespace SectionStack

variable {ε σ : Type} {hook : Hook ε σ} {calls : σ → Nat} {k : Option Nat}

/-- The hook does not use the stack. Of its calls, which it counts, it fails at the one that comes
after `k` others; without a `k` it never does. -/
def FailsAfter (k : Option Nat) (calls : σ → Nat) (hook : Hook ε σ) : Prop :=
  ∀ name value st s, (hook name value).Ends (st, s) fun r t =>
    t.1 = st ∧ calls t.2 = calls s + 1 ∧ (r.isOk = false ↔ k = some (calls s))

theorem pushOffer_failsAfter (fails : FailsAfter k calls hook) (draft : Option Nat × SectionStack)
    (offer : Offer) (s : σ) :
    (pushOffer hook draft.1 offer).Ends (draft.2, s) fun r t =>
      t.1 = (consider draft offer).2 ∧
      calls t.2 = calls s + (draft.2.changed? offer).toList.length ∧
      match r with
      | .ok serial? => serial? = (consider draft offer).1
      | .error _ => k = some (calls s) ∧ calls t.2 = calls s + 1 := by
  rw [ends_pushOffer]
  cases hc : draft.2.changed? offer with
  | none => exact ⟨by rw [consider_of_none hc], rfl, by rw [consider_of_none hc]⟩
  | some name =>
    refine (fails name offer.2 (draft.2.change draft.1 name offer.2).2 s).imp ?_
    intro r t ht
    obtain ⟨hstack, hcalls, hfail⟩ := ht
    refine ⟨by rw [hstack, consider_of_some hc], hcalls, ?_⟩
    cases r with
    | ok => exact (congrArg Prod.fst (consider_of_some hc)).symm
    | error e => exact ⟨hfail.mp rfl, hcalls⟩

/-- By induction on the offers: the push goes on until the hook fails, with the offer that the hook is
told of then as the last one that counts. -/
theorem pushOffers_failsAfter (fails : FailsAfter k calls hook) (offers : List Offer)
    (draft : Option Nat × SectionStack) (s : σ) :
    (pushOffers hook draft.1 offers).Ends (draft.2, s) fun r t => ∃ taken,
      t.1 = (taken.foldl consider draft).2 ∧
      calls t.2 = calls s + (changedNames draft taken).length ∧
      match r with
      | .ok serial? => taken = offers ∧ serial? = (taken.foldl consider draft).1
      | .error _ => ∃ before offer after serial? u, offers = before ++ offer :: after ∧
          taken = before ++ [offer] ∧ pushOffers hook draft.1 before (draft.2, s) = .ok serial? u ∧
          k = some (calls u.2) ∧ calls t.2 = calls u.2 + 1 := by
  induction offers generalizing draft s with
  | nil => exact ⟨[], rfl, rfl, rfl, rfl⟩
  | cons offer rest ih =>
    have hfirst := pushOffer_failsAfter fails draft offer s
    rw [pushOffers, Work.ends_bind]
    cases hp : pushOffer hook draft.1 offer (draft.2, s) with
    | error e t =>
      rw [Work.ends_of_error hp] at hfirst ⊢
      obtain ⟨hstack, hcalls, hk, hlast⟩ := hfirst
      refine ⟨[offer], hstack, ?_, [], offer, rest, draft.1, (draft.2, s), rfl, rfl, rfl, hk, hlast⟩
      rw [hcalls, changedNames, changedNames, List.append_nil]
    | ok serial? t =>
      rw [Work.ends_of_ok hp] at hfirst ⊢
      obtain ⟨hstack, hcalls, rfl⟩ := hfirst
      obtain ⟨st', x⟩ := t
      obtain rfl : st' = (consider draft offer).2 := hstack
      refine (ih (consider draft offer) x).imp ?_
      intro r u hu
      obtain ⟨taken, hleft, hmade, hend⟩ := hu
      refine ⟨offer :: taken, hleft, ?_, ?_⟩
      · rw [hmade, hcalls, changedNames, List.length_append, Nat.add_assoc]
      · cases r with
        | ok serial? => exact ⟨by rw [hend.1], hend.2⟩
        | error e =>
          obtain ⟨before, last, after, serial?, v, rfl, rfl, hbefore, hk, hlast⟩ := hend
          refine ⟨offer :: before, last, after, serial?, v, rfl, rfl, ?_, hk, hlast⟩
          simp only [pushOffers, bind, EStateM.bind, hp, hbefore]

theorem push_failsAfter (fails : FailsAfter k calls hook) (offers : List Offer) (st : SectionStack)
    (s : σ) :
    (push hook offers).Ends (st, s) fun r t => ∃ taken,
      t.1 = (st.offered taken).2 ∧
      calls t.2 = calls s + (changedNames (none, st) taken).length ∧
      match r with
      | .ok changed => taken = offers ∧ changed = (st.offered taken).1.isSome
      | .error _ => ∃ before offer after changed u, offers = before ++ offer :: after ∧
          taken = before ++ [offer] ∧ push hook before (st, s) = .ok changed u ∧
          k = some (calls u.2) ∧ calls t.2 = calls u.2 + 1 := by
  rw [push, Work.ends_bind]
  refine (pushOffers_failsAfter fails offers (none, st) s).imp ?_
  intro r t ht
  obtain ⟨taken, hleft, hmade, hend⟩ := ht
  cases r with
  | ok serial? => exact ⟨taken, hleft, hmade, hend.1, congrArg Option.isSome hend.2⟩
  | error e =>
    obtain ⟨before, offer, after, serial?, u, hoffers, htaken, hbefore, hk, hlast⟩ := hend
    refine ⟨taken, hleft, hmade, before, offer, after, serial?.isSome, u, hoffers, htaken, ?_, hk,
      hlast⟩
    simp only [push, bind, EStateM.bind, hbefore]
    rfl

/-- Popping what a push has opened gives back what was there before it. -/
theorem Drafted.pop_sameOpen {base : SectionStack} {names : List String}
    {draft : Option Nat × SectionStack} (h : Drafted base names draft) (hnames : names ≠ [])
    {ε τ : Type} {remove : Hook ε τ} (quiet : Quiet remove) (s : τ) :
    ∃ st t, pop remove (draft.2, s) = .ok () (st, t) ∧ st.SameOpen base := by
  have hback := SectionStack.pop_sameOpen quiet.aloof (h.opened hnames).2.2 (fun _ _ => trivial)
    (x := s) trivial
  obtain ⟨_, t, hpop, hsame, _⟩ := hback.exists_ok
  exact ⟨t.1, t.2, hpop, hsame⟩

/-- A push with a hook that fails some time is a push of the offers up to the one for which it failed:
the stack is what a push of these alone makes of it. If no frame was pushed, it is as before; else one
section was opened, with a name for each frame, and one pop gives back the sections and the frames from
before the push. -/
theorem failed_push_is_push_of_prefix {ε' ε'' τ υ : Type} (fails : FailsAfter k calls hook)
    {other : Hook ε' τ} (quiet : Quiet other) {remove : Hook ε'' υ} (removing : Quiet remove)
    (offers : List Offer) (st : SectionStack) {s : σ} (fresh : calls s = 0) :
    (push hook offers).Ends (st, s) fun r t => ∃ taken,
      (match r with
        | .ok _ => taken = offers
        | .error _ => ∃ before offer after changed u, offers = before ++ offer :: after ∧
            taken = before ++ [offer] ∧ push hook before (st, s) = .ok changed u ∧
            k = some (calls u.2) ∧ calls t.2 = calls u.2 + 1) ∧
      (∀ x, ∃ changed y, push other taken (st, x) = .ok changed (t.1, y) ∧
        ∀ answer, r = .ok answer → answer = changed) ∧
      if calls t.2 = 0 then t.1 = st
      else ∃ opened, t.1.sections = opened :: st.sections ∧ opened.names.length = calls t.2 ∧
        (∀ name, t.1.depth name = st.depth name + opened.names.count name) ∧
        ∀ y, ∃ st' z, pop remove (t.1, y) = .ok () (st', z) ∧ st'.sections = st.sections ∧
          ∀ name, st'.frames name = st.frames name := by
  refine (push_failsAfter fails offers st s).imp ?_
  intro r t ht
  obtain ⟨taken, hleft, hmade, hend⟩ := ht
  have hdrafted := drafted_offered st taken
  refine ⟨taken, ?_, fun x => ?_, ?_⟩
  · cases r with
    | ok => exact hend.1
    | error => exact hend
  · obtain ⟨y, hy⟩ := push_quiet quiet taken st x
    refine ⟨_, y, hleft ▸ hy, fun answer hanswer => ?_⟩
    cases hanswer
    exact hend.2
  · rw [fresh, Nat.zero_add] at hmade
    by_cases hnone : changedNames (none, st) taken = []
    · rw [if_pos (by rw [hmade, hnone]; rfl), hleft, hdrafted.untouched hnone]
    · have hsome : calls t.2 ≠ 0 := by
        rw [hmade]
        exact fun h => hnone (List.length_eq_zero_iff.mp h)
      rw [if_neg hsome, hleft]
      refine ⟨_, (hdrafted.opened hnone).2.2.sections, hmade.symm, hdrafted.depth, fun y => ?_⟩
      obtain ⟨st', z, hpop, hsame⟩ := hdrafted.pop_sameOpen hnone removing y
      exact ⟨st', z, hpop, hsame.sections, fun name => congrFun hsame.frames name⟩

/-- Counts its calls, and fails when `k` of them went well. -/
def countdown (k : Option Nat) : Hook Failure Nat := fun name _ => do
  let made := (← get).2
  modify fun s => (s.1, s.2 + 1)
  if k = some made then throw (.raised name)

theorem countdown_failsAfter (k : Option Nat) : FailsAfter k id (countdown k) := by
  intro name value st made
  simp only [countdown, Work.ends_bind, Work.ends_get, Work.ends_modify]
  split
  next h => exact ⟨rfl, rfl, by simp [h, Except.isOk, Except.toBool]⟩
  next h => exact ⟨rfl, rfl, by simp [h, Except.isOk, Except.toBool]⟩

/-- One property is set twice before the hook fails, over a section that has set it, too. -/
theorem failed_push_is_push_of_prefix_repeated :
    let st := (empty.offered [(some "a", some "1")]).2
    let t := (push (countdown (some 1)) [(some "a", some "2"), (some " ", some "x"),
      (some "a", none), (some "b", some "4")]).leaves (st, 0)
    t.1.openNames = [["a", "a"], ["a"]] ∧
      ∃ st', pop silent (t.1, ()) = (.ok () (st', ()) : EStateM.Result Empty _ _) ∧
        st'.sections = st.sections ∧ ∀ name, st'.frames name = st.frames name := by
  intro st t
  have hends := failed_push_is_push_of_prefix (countdown_failsAfter (some 1))
    (quiet_silent (ε := Empty) (σ := Unit)) (quiet_silent (ε := Empty) (σ := Unit))
    [(some "a", some "2"), (some " ", some "x"), (some "a", none), (some "b", some "4")] st
    (s := 0) rfl
  obtain ⟨taken, _, _, hopened⟩ := Work.ends_iff.mp hends
  have hmade : id t.2 ≠ 0 := by decide +kernel
  rw [if_neg hmade] at hopened
  obtain ⟨opened, _, _, _, hpop⟩ := hopened
  obtain ⟨st', z, hst', hback⟩ := hpop ()
  exact ⟨by decide +kernel, st', hst', hback⟩

end SectionStack

end LogContext
