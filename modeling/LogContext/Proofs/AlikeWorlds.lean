import LogContext.Proofs.AlikeProjections

namespace LogContext

/-- The calls that are refused. -/
def Backing.refused : Backing → List (StoreCall × String)
  | .recording refused => refused
  | .contextual _ => []

namespace World

/-- Projections learn the same from two worlds, whose stores may have different backings. -/
structure SameView (b b' : Backing) (w w' : World) : Prop where
  entries : w'.entries b' = w.entries b
  application : w'.space.application = w.space.application
  answers : w'.answers = w.answers

variable {b b' : Backing}

theorem SameView.refl (b : Backing) (w : World) : SameView b b w w := ⟨rfl, rfl, rfl⟩

theorem entries_store (b : Backing) (key value : String) (w : World) :
    (World.store b key value w).entries b = (w.entries b).insert key value := by
  cases b with
  | recording refused => rfl
  | contextual name => exact ContextSpace.entries_put w.space name key value

theorem entries_discard (b : Backing) (key : String) (w : World) :
    (World.discard b key w).entries b = (w.entries b).erase key := by
  cases b with
  | recording refused => rfl
  | contextual name => exact ContextSpace.entries_remove w.space name key

theorem application_store (b : Backing) (key value : String) (w : World) :
    (World.store b key value w).space.application = w.space.application := by
  cases b with
  | recording refused => rfl
  | contextual name => exact ContextSpace.application_put w.space name key value

theorem application_discard (b : Backing) (key : String) (w : World) :
    (World.discard b key w).space.application = w.space.application := by
  cases b with
  | recording refused => rfl
  | contextual name => exact ContextSpace.application_remove w.space name key

theorem answers_store (b : Backing) (key value : String) (w : World) :
    (World.store b key value w).answers = w.answers := by
  cases b <;> rfl

theorem answers_discard (b : Backing) (key : String) (w : World) :
    (World.discard b key w).answers = w.answers := by
  cases b <;> rfl

theorem SameView.store {w w' : World} (h : SameView b b' w w') (key value : String) :
    SameView b b' (World.store b key value w) (World.store b' key value w') where
  entries := by rw [entries_store, entries_store, h.entries]
  application := by rw [application_store, application_store, h.application]
  answers := by rw [answers_store, answers_store, h.answers]

theorem SameView.discard {w w' : World} (h : SameView b b' w w') (key : String) :
    SameView b b' (World.discard b key w) (World.discard b' key w') where
  entries := by rw [entries_discard, entries_discard, h.entries]
  application := by rw [application_discard, application_discard, h.application]
  answers := by rw [answers_discard, answers_discard, h.answers]

theorem SameView.setApplication {w w' : World} (h : SameView b b' w w') (name : Option String) :
    SameView b b' { w with space := w.space.setApplication name }
      { w' with space := w'.space.setApplication name } where
  entries := by
    have hentries : ∀ (b : Backing) (w : World),
        World.entries b { w with space := w.space.setApplication name } = w.entries b := by
      intro b w
      cases b <;> rfl
    rw [hentries, hentries, h.entries]
  application := rfl
  answers := h.answers

theorem SameView.trans {b'' : Backing} {w w' w'' : World} (h : SameView b b' w w')
    (h' : SameView b' b'' w' w'') : SameView b b'' w w'' where
  entries := h'.entries.trans h.entries
  application := h'.application.trans h.application
  answers := h'.answers.trans h.answers

theorem SameView.symm {w w' : World} (h : SameView b b' w w') : SameView b' b w' w where
  entries := h.entries.symm
  application := h.application.symm
  answers := h.answers.symm

/-- The work ends with an answer that depends on the world before, and leaves a world that looks like
the one which is given. -/
def Shows {α : Type} (b : Backing) (answer : World → Except Failure α) (after : World → World)
    (work : Work Failure World α) : Prop :=
  ∀ w, work.Ends w fun r v => r = answer w ∧ SameView b b (after w) v

theorem Shows.matches {α : Type} {answer answer' : World → Except Failure α}
    {after after' : World → World} {work work' : Work Failure World α}
    (h : Shows b answer after work) (h' : Shows b' answer' after' work')
    (hsame : ∀ w w', SameView b b' w w' →
      answer' w' = answer w ∧ SameView b b' (after w) (after' w')) :
    Work.Matches (SameView b b') work work' := by
  intro w w' hw
  obtain ⟨hanswer, hafter⟩ := hsame w w' hw
  refine (h w).imp ?_
  rintro r v ⟨rfl, hv⟩
  refine (h' w').imp ?_
  rintro r' v' ⟨rfl, hv'⟩
  exact ⟨hanswer, (hv.symm.trans hafter).trans hv'⟩

/-- What a call ends with if it is not refused. -/
def answerOf {α : Type} (b : Backing) (call : StoreCall) (key : String) (answer : World → α)
    (w : World) : Except Failure α :=
  if b.refused.contains (call, key) then .error (.refusedCall call key) else .ok (answer w)

/-- A refused call changes nothing. -/
def afterCall (b : Backing) (call : StoreCall) (key : String) (change : World → World)
    (w : World) : World :=
  if b.refused.contains (call, key) then w else change w

theorem lookUp_shows (b : Backing) (key : String) :
    Shows b (answerOf b .get key fun w => (w.entries b).find? key) id (lookUp b key) := by
  intro w
  cases b with
  | recording refused =>
    by_cases h : refused.contains (.get, key) = true
    all_goals
      simp only [lookUp, Work.ends_bind, note, Work.ends_modify, refuse, answerOf, Backing.refused,
        h, ↓reduceIte]
      exact ⟨rfl, rfl, rfl, rfl⟩
  | contextual name =>
    refine ⟨congrArg Except.ok (ContextSpace.get_fst w.space name key), ?_, ?_, rfl⟩
    · exact ContextSpace.entries_get w.space name key
    · exact ContextSpace.application_get w.space name key

theorem put_shows (b : Backing) (key value : String) :
    Shows b (answerOf b .put key fun _ => ()) (afterCall b .put key (World.store b key value))
      (put b key value) := by
  intro w
  cases b with
  | recording refused =>
    by_cases h : refused.contains (.put, key) = true
    all_goals
      simp only [put, Work.ends_bind, note, Work.ends_modify, refuse, answerOf, afterCall, Backing.refused,
        h, ↓reduceIte]
      exact ⟨rfl, rfl, rfl, rfl⟩
  | contextual name => exact ⟨rfl, .refl _ _⟩

theorem remove_shows (b : Backing) (key : String) :
    Shows b (answerOf b .remove key fun _ => ()) (afterCall b .remove key (World.discard b key))
      (remove b key) := by
  intro w
  cases b with
  | recording refused =>
    by_cases h : refused.contains (.remove, key) = true
    all_goals
      simp only [remove, Work.ends_bind, note, Work.ends_modify, refuse, answerOf, afterCall, Backing.refused,
        h, ↓reduceIte]
      exact ⟨rfl, rfl, rfl, rfl⟩
  | contextual name => exact ⟨rfl, .refl _ _⟩

section

variable (refused : b'.refused = b.refused)

include refused

theorem answerOf_eq {α : Type} {answer answer' : World → α} {w w' : World}
    (h : answer' w' = answer w) (call : StoreCall) (key : String) :
    answerOf b' call key answer' w' = answerOf b call key answer w := by
  rw [answerOf, answerOf, refused, h]

theorem SameView.afterCall {change change' : World → World} {w w' : World}
    (h : SameView b b' w w') (hchange : SameView b b' (change w) (change' w')) (call : StoreCall)
    (key : String) :
    SameView b b' (World.afterCall b call key change w) (World.afterCall b' call key change' w') := by
  rw [World.afterCall, World.afterCall, refused]
  split
  next => exact h
  next => exact hchange

theorem lookUp_sameView (key : String) :
    Work.Matches (SameView b b') (lookUp b key) (lookUp b' key) :=
  (lookUp_shows b key).matches (lookUp_shows b' key) fun _ _ h =>
    ⟨answerOf_eq refused (congrArg (OrderedMap.find? · key) h.entries) .get key, h⟩

theorem put_sameView (key value : String) :
    Work.Matches (SameView b b') (put b key value) (put b' key value) :=
  (put_shows b key value).matches (put_shows b' key value) fun _ _ h =>
    ⟨answerOf_eq refused rfl .put key, h.afterCall refused (h.store key value) .put key⟩

theorem remove_sameView (key : String) :
    Work.Matches (SameView b b') (remove b key) (remove b' key) :=
  (remove_shows b key).matches (remove_shows b' key) fun _ _ h =>
    ⟨answerOf_eq refused rfl .remove key, h.afterCall refused (h.discard key) .remove key⟩

end

theorem resolve_sameView (index : Nat) (resolver : Resolver) :
    Work.Matches (SameView b b') (resolve index resolver) (resolve index resolver) := by
  have hnote : Work.Matches (ε := Failure) (SameView b b') (note .resolved) (note .resolved) :=
    Work.matches_modify fun _ _ h => ⟨h.entries, h.application, h.answers⟩
  cases resolver with
  | ambient => exact fun w w' h => ⟨congrArg Except.ok h.application, h⟩
  | answers names =>
    refine hnote.bind fun _ => ?_
    intro w w' h
    have hname := congrArg (fun left => (nextAnswer (left[index]?.getD [])).1) h.answers
    have hrest := congrArg (fun left => left.set index (nextAnswer (left[index]?.getD [])).2)
      h.answers
    rw [Work.ends_modifyGet, Work.ends_modifyGet]
    exact ⟨congrArg Except.ok hname, h.entries, h.application, hrest⟩
  | failing message => exact hnote.bind fun _ => Work.matches_throw _

theorem unlogged_sameView (w : World) : Unlogged fun v => SameView b b w v :=
  fun _ _ _ _ _ h => ⟨h.entries, h.application, h.answers⟩

theorem emit_shows (setup : Setup) (logger : Logger) (level : LogLevel) (message : String)
    (attributes : Attributes) :
    Shows b (fun _ => .ok ()) id (emit setup logger level message attributes) := by
  intro w
  obtain ⟨v, hv⟩ := emit_ok setup logger level message attributes w
  have hkeeps := (unlogged_sameView (b := b) w).emit setup logger level message attributes
  have hview := hkeeps.leaves (.refl b w)
  rw [Work.leaves_of_ok hv] at hview
  exact (Work.ends_of_ok hv).mpr ⟨rfl, hview⟩

theorem report_shows (setup : Setup) (index : Nat) (p : ProjectionSetup) (message : String)
    (sections : Option Nat) :
    Shows b (fun _ => .ok ()) id ((setup.projection index p).report message sections) := by
  simp only [Setup.projection]
  split
  next => exact fun w => ⟨rfl, .refl b w⟩
  next logger _ => exact emit_shows setup logger _ _ _

end World

open World

/-- A projection of a setup, whatever its logger, does the same in worlds that look the same to it. -/
theorem Setup.alike_projection (setup setup' : Setup)
    (refused : setup'.backing.refused = setup.backing.refused) (index : Nat)
    {p p' : ProjectionSetup} (config : p'.config = p.config) (resolver : p'.resolver = p.resolver) :
    Projection.Alike (SameView setup.backing setup'.backing) (setup.projection index p)
      (setup'.projection index p') where
  config := config
  lookUp := fun key _ => lookUp_sameView refused key
  put := put_sameView refused
  remove := remove_sameView refused
  application := by
    show Work.Matches _ (World.resolve index p.resolver) (World.resolve index p'.resolver)
    rw [resolver]
    exact resolve_sameView index p.resolver
  report := fun message sections =>
    (report_shows setup index p message sections).matches
      (report_shows setup' index p' message sections) fun _ _ h => ⟨rfl, h⟩

end LogContext
