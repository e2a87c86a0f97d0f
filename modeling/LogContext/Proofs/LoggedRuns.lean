import LogContext.Proofs.AlikeWorlds

namespace LogContext

open SectionStack

namespace Work

variable {ε σ τ α β : Type} {R : σ → τ → Prop}

/-- The work ends well, and nothing can be seen of it: what was related to the state before is related
to the state after. -/
def Unseen (R : σ → τ → Prop) (work : Work ε σ α) : Prop :=
  ∀ s t, R s t → ∃ a s', work s = .ok a s' ∧ R s' t

theorem unseen_pure (a : α) : Unseen R (pure a : Work ε σ α) :=
  fun s _ h => ⟨a, s, rfl, h⟩

theorem Unseen.bind {work : Work ε σ α} {f : α → Work ε σ β} (h : work.Unseen R)
    (hf : ∀ a, (f a).Unseen R) : (work >>= f).Unseen R := by
  intro s t hst
  obtain ⟨a, s', hwork, hrelated⟩ := h s t hst
  obtain ⟨b, s'', hnext, hafter⟩ := hf a s' t hrelated
  refine ⟨b, s'', ?_, hafter⟩
  simp only [Bind.bind, EStateM.bind, hwork, hnext]

theorem Unseen.matches_pure {work : Work ε σ Unit} (h : work.Unseen R) :
    Matches R work (pure () : Work ε τ Unit) := by
  intro s t hst
  obtain ⟨a, s', hwork, hrelated⟩ := h s t hst
  exact (ends_of_ok hwork).mpr ⟨rfl, hrelated⟩

end Work

/-- Where a logger takes what it adds to its records, and where these go. -/
structure LogOutlet (ε σ : Type) where
  /-- A copy of the entries of the store that records are tagged with. -/
  snapshot : Work ε σ Table
  clock : Work ε σ Int
  emit : LogRecord → Work ε σ Unit

/-- Nothing of it fails, and nothing can be seen of it. -/
structure LogOutlet.Unseen {ε σ τ : Type} (R : σ → τ → Prop) (outlet : LogOutlet ε σ) : Prop where
  snapshot : outlet.snapshot.Unseen R
  clock : outlet.clock.Unseen R
  emit : ∀ record, (outlet.emit record).Unseen R

/-- What a logger tags its records with. -/
def Logger.tags {ε σ : Type} (logger : Logger) (outlet : LogOutlet ε σ) : Work ε σ Table :=
  if logger.tagged then outlet.snapshot else pure .empty

/-- A record that the threshold drops is not made: neither the store nor the clock is read for it. -/
def Logger.emitTo {ε σ : Type} (logger : Logger) (outlet : LogOutlet ε σ) (level : LogLevel)
    (message : String) (attributes : Attributes) : Work ε σ Unit := do
  if logger.admits level.severity then
    let entries ← logger.tags outlet
    let timestamp ← outlet.clock
    outlet.emit (logger.record entries level message attributes timestamp)

theorem Logger.unseen_emitTo {ε σ τ : Type} {R : σ → τ → Prop} (logger : Logger)
    {outlet : LogOutlet ε σ} (unseen : outlet.Unseen R) (level : LogLevel) (message : String)
    (attributes : Attributes) : (logger.emitTo outlet level message attributes).Unseen R := by
  unfold Logger.emitTo
  split
  next =>
    have htags : (logger.tags outlet).Unseen R := by
      unfold Logger.tags
      split
      next => exact unseen.snapshot
      next => exact Work.unseen_pure _
    exact htags.bind fun entries => unseen.clock.bind fun timestamp => unseen.emit _
  next => exact Work.unseen_pure _

/-- A logger does the same with outlets that do the same. -/
theorem Logger.emitTo_matches {ε σ τ : Type} {R : σ → τ → Prop} (logger : Logger)
    {outlet : LogOutlet ε σ} {outlet' : LogOutlet ε τ}
    (snapshot : Work.Matches R outlet.snapshot outlet'.snapshot)
    (clock : Work.Matches R outlet.clock outlet'.clock)
    (emit : ∀ record, Work.Matches R (outlet.emit record) (outlet'.emit record)) (level : LogLevel)
    (message : String) (attributes : Attributes) :
    Work.Matches R (logger.emitTo outlet level message attributes)
      (logger.emitTo outlet' level message attributes) := by
  unfold Logger.emitTo
  split
  next =>
    have htags : Work.Matches R (logger.tags outlet) (logger.tags outlet') := by
      unfold Logger.tags
      split
      next => exact snapshot
      next => exact Work.matches_pure _
    exact htags.bind fun entries => clock.bind fun timestamp => emit _
  next => exact Work.matches_pure _

/-- A use of a store, with all that is handed over to it. -/
inductive StoreUse where
  | get (key : String)
  | put (key value : String)
  | remove (key : String)
  deriving DecidableEq, Repr

namespace StoreUse

variable {ε σ τ α : Type} {R : σ → τ → Prop}

/-- Notes a use of the store before it is tried. -/
def noting (use : StoreUse) (work : Work ε σ α) : Work ε (List StoreUse × σ) α := do
  modify fun s => (s.1 ++ [use], s.2)
  work.beside

theorem noting_alike (use : StoreUse) {work : Work ε σ α} {other : Work ε τ α}
    (h : Work.Matches R work other) :
    Work.Matches (Paired R) (use.noting work) (use.noting other) := by
  refine Work.Matches.bind (Work.matches_modify fun s t hst => ?_) fun _ => h.beside
  exact ⟨congrArg (· ++ [use]) hst.1, hst.2⟩

theorem noting_matches (use : StoreUse) (work : Work ε σ α) :
    Work.Matches (fun (s : List StoreUse × σ) t => s.2 = t) (use.noting work) work := by
  intro s t hst
  rw [noting, Work.ends_bind, Work.ends_modify]
  exact Work.beside_matches work (s.1 ++ [use], s.2) t hst

end StoreUse

namespace Projection

variable {ε σ τ : Type} {p : Projection ε σ} {q : Projection ε τ} {R : σ → τ → Prop}

/-- The same projection without a logger. -/
def unlogged (p : Projection ε σ) : Projection ε σ := { p with report := fun _ _ => pure () }

/-- The same projection with a logger, which is told of changes on the level for debugging. -/
def loggedBy (p : Projection ε σ) (logger : Logger) (outlet : LogOutlet ε σ) : Projection ε σ :=
  { p with
    report := fun message sections => logger.emitTo outlet .debug message
      (.ofPairs (sections.toList.map fun n : Nat => ("sections", .int n))) }

theorem alike_loggedBy (blind : Alike R p.unlogged q.unlogged) (logger : Logger)
    {outlet : LogOutlet ε σ} (unseen : outlet.Unseen R) :
    Alike R (p.loggedBy logger outlet) q.unlogged where
  config := blind.config
  lookUp := blind.lookUp
  put := blind.put
  remove := blind.remove
  application := blind.application
  report := fun message _ => (logger.unseen_emitTo unseen .debug message _).matches_pure

/-- The same projection, which notes its uses of the store. -/
def noted (p : Projection ε σ) : Projection ε (List StoreUse × σ) where
  config := p.config
  lookUp := fun key => (StoreUse.get key).noting (p.lookUp key)
  put := fun key value => (StoreUse.put key value).noting (p.put key value)
  remove := fun key => (StoreUse.remove key).noting (p.remove key)
  application := p.application.beside
  report := fun message sections => (p.report message sections).beside

theorem Alike.noted (alike : Alike R p q) : Alike (Paired R) p.noted q.noted where
  config := alike.config
  lookUp := fun key hkey => (StoreUse.get key).noting_alike (alike.lookUp key hkey)
  put := fun key value => (StoreUse.put key value).noting_alike (alike.put key value)
  remove := fun key => (StoreUse.remove key).noting_alike (alike.remove key)
  application := alike.application.beside
  report := fun message sections => (alike.report message sections).beside

theorem noted_alike (p : Projection ε σ) :
    Alike (fun (s : List StoreUse × σ) t => s.2 = t) p.noted p where
  config := rfl
  lookUp := fun key _ => (StoreUse.get key).noting_matches (p.lookUp key)
  put := fun key value => (StoreUse.put key value).noting_matches (p.put key value)
  remove := fun key => (StoreUse.remove key).noting_matches (p.remove key)
  application := Work.beside_matches p.application
  report := fun message sections => Work.beside_matches (p.report message sections)

end Projection

/-- What there is to see after a step: how it ended, the stack, the contents of the store, and all uses
of the store so far. -/
structure SeenStep (ε ρ : Type) where
  result : Except ε (Option Bool)
  stack : SectionStack
  contents : ρ
  uses : List StoreUse

/-- The state now, and what was seen after each step. -/
structure SeenRun (ε σ ρ : Type) where
  now : SectionStack × List StoreUse × σ
  steps : List (SeenStep ε ρ)

namespace SeenRun

variable {ε σ τ ρ α : Type} {R : σ → τ → Prop}

def start (s : σ) : SeenRun ε σ ρ := ⟨(.empty, [], s), []⟩

/-- One step, of which the answer is kept; a step that fails is seen, too. -/
def step (contents : σ → ρ) (answer : α → Option Bool)
    (work : Work ε (SectionStack × List StoreUse × σ) α) : Work ε (SeenRun ε σ ρ) α := do
  let outcome ← work.attempt.within now fun now run => { run with now }
  modify fun run =>
    let seen : SeenStep ε ρ :=
      ⟨answer <$> outcome, run.now.1, contents run.now.2.2, run.now.2.1⟩
    { run with steps := run.steps ++ [seen] }
  Work.ofExcept outcome

theorem ends_step {contents : σ → ρ} {answer : α → Option Bool}
    {work : Work ε (SectionStack × List StoreUse × σ) α} {run : SeenRun ε σ ρ}
    {post : Except ε α → SeenRun ε σ ρ → Prop} :
    (step contents answer work).Ends run post ↔ work.Ends run.now fun r now => post r
      ⟨now, run.steps ++ [⟨answer <$> r, now.1, contents now.2.2, now.2.1⟩]⟩ := by
  simp only [step, Work.ends_bind, Work.ends_within, Work.ends_attempt, Work.ends_modify,
    Work.ends_ofExcept]

/-- The same was seen of two runs, which are now in states that are related. -/
structure Alike (R : σ → τ → Prop) (run : SeenRun ε σ ρ) (run' : SeenRun ε τ ρ) : Prop where
  now : Paired (Paired R) run.now run'.now
  steps : run'.steps = run.steps

theorem step_alike {contents : σ → ρ} {contents' : τ → ρ}
    (shown : ∀ s t, R s t → contents' t = contents s) (answer : α → Option Bool)
    {work : Work ε (SectionStack × List StoreUse × σ) α}
    {work' : Work ε (SectionStack × List StoreUse × τ) α}
    (h : Work.Matches (Paired (Paired R)) work work') :
    Work.Matches (Alike R) (step contents answer work) (step contents' answer work') := by
  intro run run' hrun
  rw [ends_step]
  refine (h run.now run'.now hrun.now).imp ?_
  intro r now hr
  rw [ends_step]
  refine hr.imp ?_
  rintro _ now' ⟨rfl, hnow⟩
  obtain ⟨hstack, huses, hrelated⟩ := hnow
  refine ⟨rfl, ⟨hstack, huses, hrelated⟩, ?_⟩
  simp only [hrun.steps, hstack, huses, shown _ _ hrelated]

/-- What a run has passed is what was seen of it. -/
structure Follows (run : SeenRun ε σ σ) (run' : ProjectionRun σ) : Prop where
  stack : run'.now.stack = run.now.1
  shared : run'.now.shared = run.now.2.2
  passed : run'.passed.map (fun moment => (moment.stack, moment.shared)) =
    run.steps.map fun seen => (seen.stack, seen.contents)

theorem step_follows (answer : α → Option Bool) (begins : Bool)
    {work : Work ε (SectionStack × List StoreUse × σ) α} {work' : Work ε (SectionStack × σ) α}
    (h : Work.Matches (Paired fun (s : List StoreUse × σ) t => s.2 = t) work work') :
    Work.Matches Follows (step id answer work) (ProjectionRun.step begins work') := by
  intro run run' hrun
  rw [ends_step]
  refine (h run.now (run'.now.stack, run'.now.shared) ⟨hrun.stack, hrun.shared.symm⟩).imp ?_
  intro r now hr
  rw [ProjectionRun.step, Work.ends_within]
  refine hr.imp ?_
  rintro _ now' ⟨rfl, hstack, hshared⟩
  refine ⟨rfl, hstack, hshared.symm, ?_⟩
  simp only [ProjectionRun.pass, List.map_append, hrun.passed, List.map_cons, List.map_nil, hstack,
    hshared, id_eq]

end SeenRun

namespace ProjectionProgram

variable {ε σ ρ : Type} {p q : Projection ε σ} {R : σ → σ → Prop} {contents : σ → ρ}

/-- Runs a program while all that there is to see is noted. -/
def watch (contents : σ → ρ) (p : Projection ε σ) :
    ProjectionProgram ε σ → Work ε (SeenRun ε σ ρ) Unit
  | .done => pure ()
  | .call c rest => do
    let _ ← SeenRun.step contents id (c.run p.noted)
    rest.watch contents p
  | .other work rest => do
    SeenRun.step contents (fun _ => none) work.beside.beside
    rest.watch contents p
  | .inSection view body rest => do
    Work.bracket (SeenRun.step contents some (p.noted.push view))
      (SeenRun.step contents (fun _ => none) p.noted.pop) fun _ => body.watch contents p
    rest.watch contents p
  | .rescue handles body handler rest => do
    Work.rescue handles (body.watch contents p) fun e => (handler e).watch contents p
    rest.watch contents p

/-- To watch a program does not change what it does. -/
theorem watch_follows (program : ProjectionProgram ε σ) (p : Projection ε σ) :
    Work.Matches SeenRun.Follows (program.watch id p) (program.run p) := by
  have hnoted := p.noted_alike
  induction program with
  | done => exact Work.matches_pure _
  | call c rest ih => exact (SeenRun.step_follows id c.begins (hnoted.call c)).bind fun _ => ih
  | other work rest ih =>
    exact (SeenRun.step_follows _ false (Work.beside_matches work).beside).bind fun _ => ih
  | inSection view body rest ihb ih =>
    have henter := SeenRun.step_follows some true (hnoted.push view)
    have hleave := SeenRun.step_follows (fun _ => none) false hnoted.pop
    exact (henter.bracket hleave fun _ => ihb).bind fun _ => ih
  | rescue handles body handler rest ihb ihh ih => exact (ihb.rescue ihh).bind fun _ => ih

/-- Alike projections are seen to do the same, whatever the program, if the other work of it does the
same, too. -/
theorem watch_alike (alike : Projection.Alike R p q) (shown : ∀ s t, R s t → contents t = contents s)
    {program : ProjectionProgram ε σ}
    (uses : program.Uses (fun _ => True) fun work => Work.Matches R work work) :
    Work.Matches (SeenRun.Alike R) (program.watch contents p) (program.watch contents q) := by
  have hnoted := alike.noted
  induction program with
  | done => exact Work.matches_pure _
  | call c rest ih => exact (SeenRun.step_alike shown id (hnoted.call c)).bind fun _ => ih uses.2
  | other work rest ih =>
    exact (SeenRun.step_alike shown _ uses.1.beside.beside).bind fun _ => ih uses.2
  | inSection view body rest ihb ih =>
    obtain ⟨-, -, hbody, hrest⟩ := uses
    have henter := SeenRun.step_alike shown some (hnoted.push view)
    have hleave := SeenRun.step_alike shown (fun _ => none) hnoted.pop
    exact (henter.bracket hleave fun _ => ihb hbody).bind fun _ => ih hrest
  | rescue handles body handler rest ihb ihh ih =>
    obtain ⟨hbody, hhandler, hrest⟩ := uses
    exact ((ihb hbody).rescue fun e => ihh e (hhandler e)).bind fun _ => ih hrest

end ProjectionProgram

namespace Projection

variable {ε σ ρ : Type}

/-- A logger whose records go through, and that nobody can tell from the store, is only an observer.
For every program, of which failures may be caught anywhere, there is the same to see with and without
it: how the program and each of its steps end, and after every step the stack, the contents of the
store and the uses of the store so far. -/
theorem logger_only_observes (p : Projection ε σ) (logger : Logger) (outlet : LogOutlet ε σ)
    {R : σ → σ → Prop} (blind : Alike R p.unlogged p.unlogged) (unseen : outlet.Unseen R)
    (contents : σ → ρ) (shown : ∀ s t, R s t → contents t = contents s)
    (program : ProjectionProgram ε σ)
    (others : program.Uses (fun _ => True) fun work => Work.Matches R work work)
    (s : σ) (start : R s s) :
    (program.watch contents p.unlogged).outcome (.start s) =
      (program.watch contents (p.loggedBy logger outlet)).outcome (.start s) ∧
    ((program.watch contents p.unlogged).leaves (.start s)).steps =
      ((program.watch contents (p.loggedBy logger outlet)).leaves (.start s)).steps := by
  have hmatches := ProjectionProgram.watch_alike (alike_loggedBy blind logger unseen) shown others
  have hstart : SeenRun.Alike (ε := ε) (ρ := ρ) R (.start s) (.start s) :=
    ⟨⟨rfl, rfl, start⟩, rfl⟩
  obtain ⟨houtcome, halike⟩ := hmatches.leaves hstart
  exact ⟨houtcome, halike.steps⟩

end Projection

namespace World

variable {b : Backing}

theorem snapshot_shows (b : Backing) : Shows b (fun w => .ok (w.entries b)) id (snapshot b) := by
  intro w
  cases b with
  | recording refused => exact ⟨rfl, .refl _ w⟩
  | contextual store =>
    have htable := ContextSpace.tableAt_snapshot w.space store []
    refine ⟨congrArg Except.ok htable, ?_, ?_, rfl⟩
    · exact ContextSpace.entries_snapshot w.space store
    · exact ContextSpace.application_snapshot w.space store []

theorem Shows.unseen {α : Type} {answer : World → α} {work : Work Failure World α}
    (h : Shows b (fun w => .ok (answer w)) id work) : work.Unseen (SameView b b) := by
  intro w w' hw
  obtain ⟨v, hv, hview⟩ := Work.exists_ok_of_ends (h w)
  exact ⟨answer w, v, hv, hview.symm.trans hw⟩

end World

open World

/-- The outlet of the loggers of a setup, which read the entries where they are. -/
def Setup.outlet (setup : Setup) : LogOutlet Failure World where
  snapshot := return (← get).entries setup.backing
  clock := World.tick setup.clockStep
  emit := World.deliver setup.sink

theorem World.emit_eq_emitTo (setup : Setup) (logger : Logger) :
    World.emit setup logger = logger.emitTo setup.outlet := by
  funext level message attributes
  rw [World.emit, Logger.emitTo, Logger.tags]
  split
  next => split <;> rfl
  next => rfl

/-- A projection of a setup reports to its own logger. -/
theorem Setup.projection_loggedBy (setup : Setup) (index : Nat) (p : ProjectionSetup)
    {logger : Logger} (h : p.logger = some logger) :
    (setup.projection index p).loggedBy logger setup.outlet = setup.projection index p := by
  simp only [Setup.projection, Projection.loggedBy, h, World.emit_eq_emitTo]

/-- The same outlet, which takes a copy of the entries for every record, as a store hands it out. -/
def Setup.copyingOutlet (setup : Setup) : LogOutlet Failure World :=
  { setup.outlet with snapshot := World.snapshot setup.backing }

namespace World

variable {b : Backing}

/-- The worlds look the same and differ in nothing but their spaces. -/
def SameButCopies (b : Backing) (w w' : World) : Prop :=
  ∃ space, w' = { w with space } ∧ SameView b b w { w with space }

theorem snapshot_matches (b : Backing) :
    Work.Matches (SameButCopies b) (return (← get).entries b) (World.snapshot b) := by
  rintro w _ ⟨space, rfl, hview⟩
  have hcopied : (World.snapshot b).Ends { w with space } fun _ v =>
      v = { w with space := v.space } := by
    cases b <;> rfl
  show (World.snapshot b).Ends { w with space } fun r t =>
    r = .ok (w.entries b) ∧ SameButCopies b w t
  refine ((snapshot_shows b { w with space }).and hcopied).imp ?_
  rintro _ v ⟨⟨rfl, hshows⟩, hspace⟩
  rw [hspace] at hshows
  exact ⟨congrArg Except.ok hview.entries, v.space, hspace, hview.trans hshows⟩

theorem tick_sameButCopies (step : Int) :
    Work.Matches (SameButCopies b) (World.tick step) (World.tick step) := by
  rintro w _ ⟨space, rfl, hview⟩
  exact ⟨rfl, space, rfl, hview.entries, hview.application, rfl⟩

theorem deliver_sameButCopies (sink : RecordSink) (record : LogRecord) :
    Work.Matches (SameButCopies b) (World.deliver sink record) (World.deliver sink record) := by
  have hwrite : ∀ text, Work.Matches (SameButCopies b) (World.write text) (World.write text) := by
    rintro text w _ ⟨space, rfl, hview⟩
    exact ⟨rfl, space, rfl, hview.entries, hview.application, rfl⟩
  cases sink with
  | trace =>
    rintro w _ ⟨space, rfl, hview⟩
    exact ⟨rfl, space, rfl, hview.entries, hview.application, rfl⟩
  | discard => exact hwrite _
  | immediate format => exact (hwrite _).bind fun _ => hwrite _
  | batched format =>
    refine (hwrite _).bind fun _ => ?_
    rintro w _ ⟨space, rfl, hview⟩
    exact ⟨rfl, space, rfl, hview.entries, hview.application, rfl⟩

/-- A logger that reads the entries where they are makes the same records, and leaves the same world,
as one that is handed a copy of them: there is but one table less. -/
theorem emit_matches_copying (setup : Setup) (logger : Logger) (level : LogLevel) (message : String)
    (attributes : Attributes) :
    Work.Matches (SameButCopies setup.backing) (World.emit setup logger level message attributes)
      (logger.emitTo setup.copyingOutlet level message attributes) := by
  rw [emit_eq_emitTo]
  exact logger.emitTo_matches (snapshot_matches setup.backing) (tick_sameButCopies setup.clockStep)
    (deliver_sameButCopies setup.sink) level message attributes

end World

theorem Setup.unseen_outlet (setup : Setup) :
    setup.outlet.Unseen (SameView setup.backing setup.backing) where
  snapshot := fun w _ h => ⟨w.entries setup.backing, w, rfl, h⟩
  clock := fun w _ h => ⟨w.clock, _, rfl, h.entries, h.application, h.answers⟩
  emit := by
    intro record w w' h
    obtain ⟨v, hv⟩ := deliver_ok setup.sink record w
    have hview := ((unlogged_sameView (b := setup.backing) w).deliver setup.sink record).leaves
      (.refl _ w)
    rw [Work.leaves_of_ok hv] at hview
    exact ⟨(), v, hv, hview.symm.trans h⟩

theorem Setup.unseen_copyingOutlet (setup : Setup) :
    setup.copyingOutlet.Unseen (SameView setup.backing setup.backing) :=
  { setup.unseen_outlet with snapshot := (snapshot_shows setup.backing).unseen }

theorem Setup.blind_projection (setup : Setup) (index : Nat) (p : ProjectionSetup) :
    Projection.Alike (SameView setup.backing setup.backing) (setup.projection index p).unlogged
      (setup.projection index p).unlogged :=
  have alike : Projection.Alike _ (setup.projection index p) (setup.projection index p) :=
    Setup.alike_projection setup setup rfl index rfl rfl
  { alike with report := fun _ _ => Work.matches_pure () }

/-- A context that holds something at first, and a trace of what is logged. -/
def watchedSetup : Setup := { leftOverSetup with sink := .trace }

/-- Tags its records with the entries of the store it watches. -/
def taggingLogger : Logger :=
  ⟨.text "Projection", true, .ofPairs [("node", .int 1)], some (.first .debug)⟩

def watchedProjection : Projection Failure World :=
  watchedSetup.projection 0 ⟨.standard, .answers [some "shop"], some taggingLogger⟩

/-- Sections, a fetch of what somebody else has written, and a failure that is caught. -/
def interruptedProgram : ProjectionProgram Failure World :=
  .rescue (fun _ => true)
    (.inSection (.ofExecution { activityId := some "pay" })
      (.other (modify (World.store watchedSetup.backing "activityId" "strange")) <|
        .call .fetch <| .other (throw (.raised "gone")) .done) .done)
    (fun _ => .call .clear .done) <|
  .call (.push (.ofExecution { tenantId := some "t" })) <| .call .sync <| .call .pop .done

/-- A logger that is handed copies of the entries, and the one of the setup, which reads them where they
are: each makes seven records. -/
theorem Projection.logger_only_observes_interrupted :
    let unlogged := watchedProjection.unlogged
    let copying := watchedProjection.loggedBy taggingLogger watchedSetup.copyingOutlet
    let watch := fun p => (interruptedProgram.watch (World.entries watchedSetup.backing) p).leaves
      (.start watchedSetup.world)
    Alike (SameView watchedSetup.backing watchedSetup.backing) unlogged unlogged ∧
    watchedSetup.copyingOutlet.Unseen (SameView watchedSetup.backing watchedSetup.backing) ∧
    interruptedProgram.Uses (fun _ => True) (fun work =>
      Work.Matches (SameView watchedSetup.backing watchedSetup.backing) work work) ∧
    (watch unlogged).steps = (watch copying).steps ∧
    (watch unlogged).steps = (watch watchedProjection).steps ∧
    (watch copying).now.2.2.records.length = 7 ∧
    (watch watchedProjection).now.2.2.records.length = 7 := by
  intro unlogged copying watch
  have hblind := watchedSetup.blind_projection 0
    ⟨.standard, .answers [some "shop"], some taggingLogger⟩
  have hstore : Work.Matches (ε := Failure) (SameView watchedSetup.backing watchedSetup.backing)
      (modify (World.store watchedSetup.backing "activityId" "strange"))
      (modify (World.store watchedSetup.backing "activityId" "strange")) :=
    Work.matches_modify fun _ _ h => h.store "activityId" "strange"
  have hothers : interruptedProgram.Uses (fun _ => True) fun work =>
      Work.Matches (SameView watchedSetup.backing watchedSetup.backing) work work := by
    simp [interruptedProgram, ProjectionProgram.Uses, hstore, Work.matches_throw]
  have hsteps : ∀ outlet : LogOutlet Failure World,
      outlet.Unseen (SameView watchedSetup.backing watchedSetup.backing) →
      (watch unlogged).steps = (watch (watchedProjection.loggedBy taggingLogger outlet)).steps :=
    fun outlet hunseen => (logger_only_observes watchedProjection taggingLogger outlet hblind hunseen
      (World.entries watchedSetup.backing) (fun _ _ h => h.entries) interruptedProgram hothers
      watchedSetup.world (.refl _ _)).2
  have hown := hsteps watchedSetup.outlet watchedSetup.unseen_outlet
  have hlogged : watchedProjection.loggedBy taggingLogger watchedSetup.outlet = watchedProjection :=
    watchedSetup.projection_loggedBy 0 _ rfl
  rw [hlogged] at hown
  exact ⟨hblind, watchedSetup.unseen_copyingOutlet, hothers,
    hsteps watchedSetup.copyingOutlet watchedSetup.unseen_copyingOutlet, hown, by decide +kernel,
    by decide +kernel⟩

end LogContext
