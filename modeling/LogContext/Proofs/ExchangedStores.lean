import LogContext.Proofs.AlikeWorlds
import LogContext.SessionProgram

namespace LogContext

/-- The same setup with another place for the entries of its store. -/
def Setup.on (setup : Setup) (backing : Backing) : Setup := { setup with backing }

/-- An entry without what was noted and written since the last one. -/
def SessionEntry.quiet (entry : SessionEntry) : SessionEntry :=
  { entry with trace := [], written := [] }

namespace Session

/-- Two sessions have the same stacks, their projections learn the same, and the entries so far only
differ in what was noted and written meanwhile. -/
structure SameView (b b' : Backing) (s s' : Session SessionEntry) : Prop where
  sectionStacks : s'.sectionStacks = s.sectionStacks
  world : World.SameView b b' s.world s'.world
  entries : s'.entries.map SessionEntry.quiet = s.entries.map SessionEntry.quiet

variable {setup : Setup} {b b' : Backing} {α : Type}

theorem SameView.stack {s s' : Session SessionEntry} (h : SameView b b' s s') (index : Nat) :
    s'.stack index = s.stack index := by
  rw [Session.stack, Session.stack, h.sectionStacks]

theorem shared_sameView {work work' : Work Failure World α}
    (h : Work.Matches (World.SameView b b') work work') :
    Work.Matches (SameView b b') (shared work) (shared work') :=
  h.within (fun _ _ hs => hs.world) fun _ _ hs _ _ hw => ⟨hs.sectionStacks, hw, hs.entries⟩

theorem focus_sameView (index : Nat) {work work' : Work Failure (SectionStack × World) α}
    (h : Work.Matches (Paired (World.SameView b b')) work work') :
    Work.Matches (SameView b b') (focus index work) (focus index work') := by
  refine h.within (fun s s' hs => ⟨hs.stack index, hs.world⟩) ?_
  intro s s' hs t t' ht
  refine ⟨?_, ht.2, hs.entries⟩
  simp only [hs.sectionStacks, ht.1]

/-- Work of a projection does the same on stores that refuse the same calls. -/
theorem byProjection_sameView (refused : b'.refused = b.refused) (index : Nat) (none : α)
    {work : Projection Failure World → Work Failure (SectionStack × World) α}
    (h : ∀ p p', Projection.Alike (World.SameView b b') p p' →
      Work.Matches (Paired (World.SameView b b')) (work p) (work p')) :
    Work.Matches (SameView b b') (byProjection (setup.on b) index none work)
      (byProjection (setup.on b') index none work) := by
  have hprojections : (setup.on b').projections = (setup.on b).projections := rfl
  rw [byProjection, byProjection, hprojections]
  split
  next => exact Work.matches_pure _
  next p _ =>
    exact focus_sameView index
      (h _ _ (Setup.alike_projection (setup.on b) (setup.on b') refused index rfl rfl))

theorem inSection_sameView (refused : b'.refused = b.refused) (index : Nat)
    (view : ExecutionView Failure) {body body' : Bool → Work Failure (Session SessionEntry) α}
    (h : ∀ changed, Work.Matches (SameView b b') (body changed) (body' changed)) :
    Work.Matches (SameView b b') (inSection (setup.on b) index view body)
      (inSection (setup.on b') index view body') :=
  (byProjection_sameView refused index false fun _ _ alike => alike.push view).bracket
    (byProjection_sameView refused index () fun _ _ alike => alike.pop) h

theorem inApplication_sameView (name : Option String)
    {body body' : Work Failure (Session SessionEntry) α}
    (h : Work.Matches (SameView b b') body body') :
    Work.Matches (SameView b b') (inApplication name body) (inApplication name body') := by
  have hmake : ∀ name : Option String, Work.Matches (ε := Failure) (SameView b b')
      (shared (modify fun w => { w with space := w.space.setApplication name }))
      (shared (modify fun w => { w with space := w.space.setApplication name })) := by
    intro name
    exact shared_sameView (Work.matches_modify fun w w' hw => hw.setApplication name)
  refine Work.matches_get fun s s' hs => ?_
  rw [hs.world.application]
  exact (hmake name).bind fun _ => h.ensuring (hmake _)

end Session

namespace SessionProgram

variable {setup : Setup} {b b' : Backing}

theorem enter_sameView (index : Nat) (label : SessionLabel) (result : SessionResult) :
    Work.Matches (Session.SameView b b') (enter (setup.on b) index label result)
      (enter (setup.on b') index label result) := by
  refine Work.matches_modify fun s s' hs => ?_
  have hstored : s'.world.sortedEntries b' = s.world.sortedEntries b := by
    rw [World.sortedEntries, World.sortedEntries, hs.world.entries]
  refine ⟨hs.sectionStacks, ⟨hs.world.entries, hs.world.application, hs.world.answers⟩, ?_⟩
  simp only [List.map_append, hs.entries, List.map_cons, List.map_nil, SessionEntry.quiet,
    hs.stack index]
  rw [show s'.world.sortedEntries (setup.on b').backing = _ from hstored]
  rfl

theorem log_sameView (index : Nat) (level : LogLevel) (message : String) (attributes : Attributes) :
    Work.Matches (Session.SameView b b') (log (setup.on b) index level message attributes)
      (log (setup.on b') index level message attributes) := by
  have hprojections : (setup.on b').projections = (setup.on b).projections := rfl
  rw [log, log, hprojections]
  split
  next => exact Work.matches_throw _
  next logger _ =>
    refine Session.shared_sameView ((Work.matches_ofExcept _).bind fun _ => ?_)
    exact (World.emit_shows (setup.on b) logger level message attributes).matches
      (World.emit_shows (setup.on b') logger level message attributes) fun _ _ h => ⟨rfl, h⟩

theorem perform_sameView (refused : b'.refused = b.refused) (index : Nat) (step : SessionStep) :
    Work.Matches (Session.SameView b b') (perform (setup.on b) index step)
      (perform (setup.on b') index step) := by
  cases step with
  | push source =>
    refine (Work.matches_ofExcept _).bind fun view => ?_
    exact (Session.byProjection_sameView refused index false fun _ _ alike => alike.push view).map _
  | pop =>
    exact (Session.byProjection_sameView refused index () fun _ _ alike => alike.pop).map _
  | clear =>
    exact (Session.byProjection_sameView refused index () fun _ _ alike =>
      alike.clear.beside).map _
  | sync =>
    exact (Session.byProjection_sameView refused index () fun _ _ alike => alike.sync).map _
  | fetch =>
    exact (Session.byProjection_sameView refused index false fun _ _ alike => alike.fetch).map _
  | latest name =>
    refine Work.matches_get fun s s' hs => ?_
    rw [hs.stack index]
    exact Work.matches_pure _
  | pushOffers offers =>
    exact (Session.byProjection_sameView refused index false fun _ _ alike =>
      alike.pushOffers offers).map _
  | store key value =>
    exact (Session.shared_sameView (Work.matches_modify fun _ _ h => h.store key value)).bind
      fun _ => Work.matches_pure _
  | discard key =>
    exact (Session.shared_sameView (Work.matches_modify fun _ _ h => h.discard key)).bind
      fun _ => Work.matches_pure _
  | log level message attributes =>
    exact (log_sameView index level message attributes).bind fun _ => Work.matches_pure _
  | stop message => exact Work.matches_throw _

/-- No block of the program runs in a context of its own. -/
def StaysInContext : SessionProgram → Prop
  | .done => True
  | .act _ rest => StaysInContext rest
  | .block head body rest =>
    (match head.action with
      | .section _ | .application _ => True
      | .copied | .fresh => False) ∧ StaysInContext body ∧ StaysInContext rest

theorem settle_sameView {α : Type} (target : Addressed α) (label : SessionLabel)
    {work work' : Run (SessionLabel × SessionResult)}
    (h : Work.Matches (Session.SameView b b') work work') :
    Work.Matches (Session.SameView b b') (settle (setup.on b) target label work)
      (settle (setup.on b') target label work') := by
  refine h.attempt.bind fun outcome => ?_
  cases outcome with
  | ok answer => exact enter_sameView target.projection answer.1 answer.2
  | error e =>
    simp only
    split
    next => exact Work.matches_throw e
    next =>
      refine (enter_sameView target.projection label (.failed e)).bind fun _ => ?_
      split
      next => exact Work.matches_throw e
      next => exact Work.matches_pure _

/-- One step after the other, and every block around its body. -/
theorem run_sameView (refused : b'.refused = b.refused) {program : SessionProgram}
    (stays : StaysInContext program) :
    Work.Matches (Session.SameView b b') (run (setup.on b) program) (run (setup.on b') program) := by
  induction program with
  | done => exact Work.matches_pure _
  | act step rest ih =>
    refine (settle_sameView step _ ?_).bind fun _ => ih stays
    exact (perform_sameView refused step.projection step.action).bind fun _ => Work.matches_pure _
  | block head body rest ihb ih =>
    obtain ⟨hhead, hbody, hrest⟩ := stays
    refine (settle_sameView head _ ?_).bind fun _ => ih hrest
    refine Work.Matches.bind ?_ fun _ => Work.matches_pure _
    obtain ⟨block, index, catches⟩ := head
    cases block with
    | «section» source =>
      refine (Work.matches_ofExcept _).bind fun view => ?_
      refine (Session.inSection_sameView refused index view fun changed => ?_).bind fun _ =>
        Work.matches_pure _
      exact (enter_sameView index .entered (.flag changed)).bind fun _ => ihb hbody
    | application name =>
      exact (Session.inApplication_sameView name (ihb hbody)).bind fun _ => Work.matches_pure _
    | copied => exact hhead.elim
    | fresh => exact hhead.elim

end SessionProgram

theorem Setup.world_sameView (setup : Setup) (b b' : Backing) :
    World.SameView b b' (setup.on b).world (setup.on b').world := by
  have hstores : ∀ (initial : List (String × String)) {w w' : World}, World.SameView b b' w w' →
      World.SameView b b' (initial.foldl (fun w pair => World.store b pair.1 pair.2 w) w)
        (initial.foldl (fun w pair => World.store b' pair.1 pair.2 w) w') := by
    intro initial
    induction initial with
    | nil => exact fun h => h
    | cons pair rest ih => exact fun h => ih (h.store pair.1 pair.2)
  refine hstores setup.initial ⟨?_, rfl, rfl⟩
  cases b <;> cases b' <;> rfl

namespace SessionProgram

/-- What two runs tell is the same but for what was noted and written, if they end alike. -/
theorem outcome_sameView {setup : Setup} {b b' : Backing} {program : SessionProgram}
    (houtcome : (run (setup.on b') program).outcome (.start (setup.on b')) =
      (run (setup.on b) program).outcome (.start (setup.on b)))
    (hview : Session.SameView b b' ((run (setup.on b) program).leaves (.start (setup.on b)))
      ((run (setup.on b') program).leaves (.start (setup.on b')))) :
    (outcome (setup.on b') program).map (·.1.map SessionEntry.quiet) =
      (outcome (setup.on b) program).map (·.1.map SessionEntry.quiet) := by
  unfold outcome
  unfold Work.outcome at houtcome
  unfold Work.leaves at hview
  cases hrun : run (setup.on b) program (.start (setup.on b)) <;>
    cases hrun' : run (setup.on b') program (.start (setup.on b')) <;>
    rw [hrun, hrun'] at houtcome hview <;> cases houtcome
  case ok.ok.refl => exact congrArg Except.ok hview.entries
  case error.error.refl =>
    simp only
    split
    next => rfl
    next => exact congrArg Except.ok hview.entries

/-- A store of the context that runs can be exchanged for one common table. Whatever a program asks of
the projections that share the store, and of the store itself, without leaving the context: every step
has the same result, and the stack and the entries are the same after it. -/
theorem contextual_store_exchanges_with_table (setup : Setup) (store : String)
    (program : SessionProgram) (stays : StaysInContext program) :
    (outcome (setup.on (.contextual store)) program).map (·.1.map SessionEntry.quiet) =
      (outcome (setup.on (.recording [])) program).map (·.1.map SessionEntry.quiet) ∧
    ((run (setup.on (.contextual store)) program).leaves
        (.start (setup.on (.contextual store)))).sectionStacks =
      ((run (setup.on (.recording [])) program).leaves
        (.start (setup.on (.recording [])))).sectionStacks ∧
    ((run (setup.on (.contextual store)) program).leaves
        (.start (setup.on (.contextual store)))).world.entries (.contextual store) =
      ((run (setup.on (.recording [])) program).leaves
        (.start (setup.on (.recording [])))).world.table := by
  have hstart : Session.SameView (.recording []) (.contextual store)
      (.start (setup.on (.recording []))) (.start (setup.on (.contextual store))) :=
    ⟨rfl, setup.world_sameView _ _, rfl⟩
  have hrefused : (Backing.contextual store).refused = (Backing.recording []).refused := rfl
  obtain ⟨houtcome, hview⟩ := (run_sameView hrefused stays).leaves hstart
  exact ⟨outcome_sameView houtcome hview, hview.sectionStacks, hview.world.entries⟩

/-- Two projections that share a key, and something in the store that neither has written. -/
def exchangedSetup : Setup where
  backing := .contextual "store"
  initial := [("user", "u"), ("tenantId", "left over")]
  projections := [⟨.standard, .ambient, none⟩, ⟨.standard, .answers [some "desk"], none⟩]
  clock := 0
  clockStep := 1
  sink := .discard

/-- A section of one projection around calls of the other, raw pairs, writes from outside, and a
program that is told to stop inside both blocks. -/
def exchangedProgram : SessionProgram :=
  .block ⟨.application (some "shop"), 0, false⟩
    (.block ⟨.section (.given (.ofExecution { activityId := some "pay" })), 0, true⟩
      (.act ⟨.pushOffers [(some "activityId", some "raw"), (some "step", none)], 1, false⟩ <|
        .act ⟨.store "tenantId" "strange", 0, false⟩ <| .act ⟨.fetch, 1, false⟩ <|
        .act ⟨.stop "enough", 0, false⟩ .done)
      .done) <|
  .act ⟨.discard "tenantId", 0, false⟩ <| .act ⟨.sync, 1, false⟩ <| .act ⟨.clear, 0, false⟩ .done

theorem contextual_store_exchanges_with_table_nested :
    StaysInContext exchangedProgram ∧
    (outcome (exchangedSetup.on (.contextual "store")) exchangedProgram).map
        (·.1.map SessionEntry.quiet) =
      (outcome (exchangedSetup.on (.recording [])) exchangedProgram).map
        (·.1.map SessionEntry.quiet) ∧
    ((run (exchangedSetup.on (.recording [])) exchangedProgram).leaves
      (.start (exchangedSetup.on (.recording [])))).entries.map (·.stack.sectionCount) =
        [1, 1, 1, 2, 1, 0, 0, 0, 2, 0] := by
  have hstays : StaysInContext exchangedProgram := by
    simp [exchangedProgram, StaysInContext]
  exact ⟨hstays, (contextual_store_exchanges_with_table exchangedSetup "store" exchangedProgram
    hstays).1, by decide +kernel⟩

end SessionProgram

end LogContext
