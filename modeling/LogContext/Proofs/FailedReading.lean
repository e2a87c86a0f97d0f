import LogContext.Proofs.ReadValues

namespace LogContext

open SectionStack

namespace Config

/-- What a store holds once a push onto a stack has cleared it, if it has to. -/
def cleared (config : Config) (st : SectionStack) (m : Snapshot) : Snapshot := fun key =>
  if st.hasTracked = false ∧ key ∈ config.propertyNames then none else m key

theorem foldl_cleared (config : Config) (st : SectionStack) (m : Snapshot) :
    (if st.hasTracked then [] else config.clearing).foldl
      (fun m change => Function.update m change.1 change.2) m = config.cleared st m := by
  funext key
  rw [cleared]
  cases st.hasTracked with
  | true => simp
  | false =>
    simp only [Bool.false_eq_true, ↓reduceIte, true_and]
    exact config.foldl_clearing m key

theorem cleared_cleared (config : Config) (st : SectionStack) (m : Snapshot) :
    config.cleared st (config.cleared st m) = config.cleared st m := by
  funext key
  simp only [cleared]
  split <;> rfl

end Config

namespace Projection

variable {ε σ ρ : Type} {p : Projection ε σ} {stored : σ → Snapshot} {view : ExecutionView ε}
  {st : SectionStack} {s t : σ} {e : ε}

theorem Driven.clear_ok {act : ρ → String × Option String → ρ} {see : σ → ρ} {K : σ → Prop}
    (driven : p.Driven act see K) (reports : p.ReportsSucceed) (hk : K s) :
    ∃ t, p.clear s = .ok () t := by
  obtain ⟨t, hremove, -⟩ := driven.removeAll p.config.propertyNames hk
  obtain ⟨u, hreport⟩ := reports clearedMessage none t
  simp only [Projection.clear, bind, EStateM.bind, hremove]
  split
  next => exact ⟨u, hreport⟩
  next => exact ⟨t, rfl⟩

/-- Two pushes of an execution onto one stack end alike, and leave the same stack and the same contents
of the store, if the stores differ at most in what is cleared first and the resolver gives the same
answers. -/
theorem Owns.push_congr (owns : p.Owns stored) (reports : p.ReportsSucceed)
    (enabled : p.config.isEnabled = true) (view : ExecutionView ε)
    (same : p.config.cleared st (stored s) = p.config.cleared st (stored t))
    (answers : (p.config.activeKey? .applicationName).isSome = true →
      p.application.outcome (p.asked st s) = p.application.outcome (p.asked st t)) :
    (p.push view).outcome (st, s) = (p.push view).outcome (st, t) ∧
      ((p.push view).leaves (st, s)).1 = ((p.push view).leaves (st, t)).1 ∧
      stored ((p.push view).leaves (st, s)).2 = stored ((p.push view).leaves (st, t)).2 := by
  have hdriven := owns.driven p.respects_true
  have hs := Work.ends_iff.mp (hdriven.push_reading enabled view st (s := s) trivial
    (Or.inr (hdriven.clear_ok reports trivial)))
  have ht := Work.ends_iff.mp (hdriven.push_reading enabled view st (s := t) trivial
    (Or.inr (hdriven.clear_ok reports trivial)))
  simp only [Config.foldl_cleared, p.config.reading_congr view answers, same] at hs ht
  cases hread : p.config.reading view (p.application.outcome (p.asked st t)) with
  | error e =>
    rw [hread] at hs ht
    exact ⟨hs.1.trans ht.1.symm, hs.2.1.trans ht.2.1.symm, hs.2.2.trans ht.2.2.symm⟩
  | ok offers =>
    rw [hread] at hs ht
    obtain ⟨hanswer, hstack, hseen⟩ := hs
    obtain ⟨hanswer', hstack', hseen'⟩ := ht
    exact ⟨(hanswer.eq_ok reports).trans (hanswer'.eq_ok reports).symm, hstack.trans hstack'.symm,
      hseen.trans hseen'.symm⟩

/-- A push that fails while it reads its execution, or asks for the application, ends with the first
failure and leaves the stack as it was. So it does the store, unless it is the push of the first value
of all, which takes the active keys out. Whatever is pushed next ends as it would without the failed
push, and leaves the same stack and the same contents of the store, if the resolver answers it as it
would without the failed push. -/
theorem failed_reading_is_invisible (owns : p.Owns stored) (reports : p.ReportsSucceed)
    (enabled : p.config.isEnabled = true)
    (fails : firstFailure? (p.config.reads view (p.application.outcome (p.asked st s))) = some e) :
    ∃ t, p.push view (st, s) = .error e (st, t) ∧
      (∀ key, stored t key =
        if st.hasTracked = false ∧ key ∈ p.config.propertyNames then none else stored s key) ∧
      ∀ next : ExecutionView ε,
        ((p.config.activeKey? .applicationName).isSome = true →
          p.application.outcome (p.asked st t) = p.application.outcome (p.asked st s)) →
        (p.push next).outcome (st, t) = (p.push next).outcome (st, s) ∧
          ((p.push next).leaves (st, t)).1 = ((p.push next).leaves (st, s)).1 ∧
          stored ((p.push next).leaves (st, t)).2 = stored ((p.push next).leaves (st, s)).2 := by
  have hdriven := owns.driven p.respects_true
  have hpush := hdriven.push_reading enabled view st (s := s) trivial
    (Or.inr (hdriven.clear_ok reports trivial))
  simp only [Config.reading_eq_error fails, Config.foldl_cleared] at hpush
  obtain ⟨⟨_, t⟩, hfailed, rfl, hstored⟩ := Work.exists_error_of_ends hpush
  refine ⟨t, hfailed, congrFun hstored, fun next answers => ?_⟩
  refine owns.push_congr reports enabled next ?_ answers
  rw [hstored, Config.cleared_cleared]

end Projection

/-- A resolver that has these answers to give, and a business key among what is published. -/
def answeringSetup (names : List (Option String)) : Setup where
  backing := .recording []
  initial := [("activityId", "left over")]
  projections := [⟨{ Config.standard with businessKey := some "bk" }, .answers names, none⟩]
  clock := 0
  clockStep := 1
  sink := .discard

def answeringProjection (names : List (Option String)) : Projection Failure World :=
  (answeringSetup names).projection 0
    ⟨{ Config.standard with businessKey := some "bk" }, .answers names, none⟩

theorem owns_answeringProjection (names : List (Option String)) :
    (answeringProjection names).Owns (World.stored (answeringSetup names).backing) := by
  have hreliable : (answeringSetup names).backing.Reliable := rfl
  exact Setup.owns_projection hreliable 0 _

theorem reportsSucceed_answeringProjection (names : List (Option String)) :
    (answeringProjection names).ReportsSucceed :=
  Setup.reportsSucceed_projection _ 0 _

/-- An execution whose business key cannot be read. This is found after the application was asked
for. -/
def keylessView : ExecutionView Failure
  | .businessKey => .error (.raised "gone")
  | _ => .ok (some "a")

theorem Projection.failed_reading_is_invisible_keyless :
    let p := answeringProjection [some "shop"]
    let setup := answeringSetup [some "shop"]
    ∃ t, p.push keylessView (.empty, setup.world) = .error (.raised "gone") (.empty, t) ∧
      World.stored setup.backing t "activityId" = none ∧
      (p.push (.ofExecution {})).outcome (.empty, t) =
        (p.push (.ofExecution {})).outcome (.empty, setup.world) := by
  intro p setup
  have hfails : firstFailure? (p.config.reads keylessView
      (p.application.outcome (p.asked .empty setup.world))) = some (.raised "gone") := by
    decide +kernel
  obtain ⟨t, hfailed, hstored, hnext⟩ := failed_reading_is_invisible
    (owns_answeringProjection [some "shop"]) (reportsSucceed_answeringProjection _)
    (by decide +kernel) hfails
  have hleaves : t = ((p.push keylessView).leaves (.empty, setup.world)).2 := by
    rw [Work.leaves, hfailed]
  refine ⟨t, hfailed, (hstored _).trans (by decide +kernel), (hnext (.ofExecution {}) fun _ => ?_).1⟩
  subst hleaves
  decide +kernel

/-- A resolver that gives another answer each time has been asked by the failed push: the next push
publishes its second answer in place of the first one. -/
theorem Projection.failed_reading_uses_up_answer :
    let p := answeringProjection [some "one", some "two"]
    let setup := answeringSetup [some "one", some "two"]
    let start : SectionStack × World := (.empty, setup.world)
    p.Owns (World.stored setup.backing) ∧ p.ReportsSucceed ∧ p.config.isEnabled = true ∧
      (p.push keylessView).outcome start = .error (.raised "gone") ∧
      World.stored setup.backing
        ((p.push (.ofExecution {})).leaves ((p.push keylessView).leaves start)).2
        "applicationName" = some "two" ∧
      World.stored setup.backing ((p.push (.ofExecution {})).leaves start).2 "applicationName" =
        some "one" := by
  intro p setup start
  refine ⟨owns_answeringProjection _, reportsSucceed_answeringProjection _, ?_⟩
  decide +kernel

end LogContext
