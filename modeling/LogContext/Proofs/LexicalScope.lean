import LogContext.Demonstration
import LogContext.Proofs.RecordAttributes
import LogContext.Proofs.SectionScope
import LogContext.Session
import Mathlib.Data.List.Forall2

namespace LogContext

/-- A program that nests sections of one projection, other applications and the handling of
failures, and logs in between. -/
inductive ScopedProgram where
  | done
  | log (level : LogLevel) (message : String) (attributes : Attributes) (rest : ScopedProgram)
  | fail (failure : Failure)
  | inSection (execution : Execution) (body rest : ScopedProgram)
  | inApplication (name : Option String) (body rest : ScopedProgram)
  | rescue (handles : Failure → Bool) (body : ScopedProgram) (handler : Failure → ScopedProgram)
      (rest : ScopedProgram)

/-- Whether a section was entered so far, and for each record the values it is expected to show; none
are expected of a record from before the first section. -/
structure Outlook where
  entered : Bool
  expected : List (Option Snapshot)

namespace Outlook

def start : Outlook := ⟨false, []⟩

def enter (o : Outlook) : Outlook := { o with entered := true }

def expect (env : Snapshot) (o : Outlook) : Outlook :=
  { o with expected := o.expected ++ [if o.entered then some env else none] }

end Outlook

namespace ScopedProgram

def run {ω : Type} (setup : Setup) (index : Nat) (logger : Logger) :
    ScopedProgram → Work Failure (Session ω) Unit
  | .done => pure ()
  | .log level message attributes rest => do
    Session.shared (World.log setup logger level message attributes)
    rest.run setup index logger
  | .fail failure => throw failure
  | .inSection execution body rest => do
    Session.inSection setup index (.ofExecution execution) fun _ => body.run setup index logger
    rest.run setup index logger
  | .inApplication name body rest => do
    Session.inApplication name (body.run setup index logger)
    rest.run setup index logger
  | .rescue handles body handler rest => do
    Work.rescue handles (body.run setup index logger) fun e => (handler e).run setup index logger
    rest.run setup index logger

/-- A record is expected of a call unless it fails or is below the threshold of the logger. -/
def expectRecord (logger : Logger) (level : LogLevel) (attributes : Attributes) (env : Snapshot) :
    Work Failure Outlook Unit := do
  Work.ofExcept (level.call.check attributes.keys)
  if logger.admits level.severity then modify (Outlook.expect env)

/-- What a program means without stacks and stores: a section binds names for its body, and so does
another application, whatever happens inside. -/
def meaning (config : Config) (logger : Logger) :
    ScopedProgram → Snapshot → Option String → Work Failure Outlook Unit
  | .done, _, _ => pure ()
  | .log level _ attributes rest, env, application => do
    expectRecord logger level attributes env
    rest.meaning config logger env application
  | .fail failure, _, _ => throw failure
  | .inSection execution body rest, env, application => do
    modify Outlook.enter
    body.meaning config logger (config.scope application execution env) application
    rest.meaning config logger env application
  | .inApplication name body rest, env, application => do
    body.meaning config logger env name
    rest.meaning config logger env application
  | .rescue handles body handler rest, env, application => do
    Work.rescue handles (body.meaning config logger env application) fun e =>
      (handler e).meaning config logger env application
    rest.meaning config logger env application

/-- No call of the program gives one of the names an attribute. -/
def Avoids (names : List String) : ScopedProgram → Prop
  | .done => True
  | .log _ _ attributes rest => (∀ name ∈ names, attributes.find? name = none) ∧ rest.Avoids names
  | .fail _ => True
  | .inSection _ body rest => body.Avoids names ∧ rest.Avoids names
  | .inApplication _ body rest => body.Avoids names ∧ rest.Avoids names
  | .rescue _ body handler rest =>
    body.Avoids names ∧ (∀ e, (handler e).Avoids names) ∧ rest.Avoids names

end ScopedProgram

/-- The record has the expected values as its attributes under the active keys. -/
def Config.Shows (config : Config) (record : LogRecord) : Option Snapshot → Prop
  | none => True
  | some env => ∀ key ∈ config.propertyNames, record.attributes.find? key = (env key).map .text

variable {ω : Type}

theorem Session.stack_set {s : Session ω} {index : Nat} (h : index < s.sectionStacks.length)
    (st : SectionStack) (w : World) :
    Session.stack { s with sectionStacks := s.sectionStacks.set index st, world := w } index = st := by
  simp only [Session.stack, List.getElem?_set_self h, Option.getD_some]

theorem Session.ends_shared {α : Type} {work : Work Failure World α} {s : Session ω}
    {post : Except Failure α → Session ω → Prop} :
    (Session.shared work).Ends s post ↔ work.Ends s.world fun r w => post r { s with world := w } :=
  Work.ends_within

theorem Session.ends_focus {α : Type} {index : Nat} {work : Work Failure (SectionStack × World) α}
    {s : Session ω} {post : Except Failure α → Session ω → Prop} :
    (Session.focus index work).Ends s post ↔ work.Ends (s.stack index, s.world) fun r t =>
      post r { s with sectionStacks := s.sectionStacks.set index t.1, world := t.2 } :=
  Work.ends_within

/-- The session is inside sections with these snapshots, while an application is current, and its
records are as expected. Before the first section nothing was tracked, so the store may hold
anything; from then on it agrees with the stack. -/
structure Tracks (setup : Setup) (index : Nat) (config : Config) (ref : SnapshotStack)
    (application : Option String) (s : Session ω) (o : Outlook) : Prop where
  present : index < s.sectionStacks.length
  snapshots : (s.stack index).snapshots = ref
  application : s.world.space.application = application
  fresh : o.entered = false → ref.below = [] ∧ (s.stack index).hasTracked = false
  agrees : o.entered = true →
    (setup.plainProjection index config).Agrees (World.stored setup.backing)
      (s.stack index, s.world)
  shown : List.Forall₂ config.Shows s.world.records o.expected

namespace Tracks

variable {setup : Setup} {index : Nat} {config : Config} {ref : SnapshotStack}
  {application : Option String} {s : Session ω} {o : Outlook}

theorem top_eq (h : Tracks setup index config ref application s o) :
    (s.stack index).latest = ref.top :=
  congrArg SnapshotStack.top h.snapshots

theorem setApplication (h : Tracks setup index config ref application s o) (name : Option String) :
    Tracks setup index config ref name
      { s with world := { s.world with space := s.world.space.setApplication name } } o where
  present := h.present
  snapshots := h.snapshots
  application := rfl
  fresh := h.fresh
  agrees := h.agrees
  shown := h.shown

theorem shows_record (h : Tracks setup index config ref application s o) {logger : Logger}
    (tagged : logger.tagged = true) (source : LogRecord.sourceKey ∉ config.propertyNames)
    (static : ∀ key ∈ config.propertyNames, logger.attributes.find? key = none)
    (level : LogLevel) (message : String) {attributes : Attributes}
    (avoids : ∀ key ∈ config.propertyNames, attributes.find? key = none) (timestamp : Int) :
    config.Shows (logger.record (if logger.tagged then s.world.entries setup.backing else .empty)
      level message attributes timestamp) (if o.entered then some ref.top else none) := by
  cases he : o.entered with
  | false => trivial
  | true =>
    intro key hkey
    have hne : key ≠ LogRecord.sourceKey := fun eq => source (eq ▸ hkey)
    have hstored : (s.world.entries setup.backing).find? key = ref.top key := by
      rw [← h.top_eq]
      exact h.agrees he key hkey
    rw [if_pos tagged, Logger.record, Logger.find?_merged, avoids key hkey, static key hkey, hstored,
      if_neg hne, Option.none_or, Option.none_or, Option.or_none]

theorem log (h : Tracks setup index config ref application s o) {record : LogRecord}
    (hshows : config.Shows record (if o.entered then some ref.top else none)) (clock : Int) :
    Tracks setup index config ref application
      { s with world := { s.world with
        clock := clock
        trace := s.world.trace ++ [.logged record] } } (o.expect ref.top) where
  present := h.present
  snapshots := h.snapshots
  application := h.application
  fresh := h.fresh
  agrees := h.agrees
  shown := by
    have hrecords : World.records { s.world with
        clock := clock
        trace := s.world.trace ++ [.logged record] } = s.world.records ++ [record] :=
      World.records_note s.world (.logged record)
    rw [hrecords]
    exact List.rel_append h.shown (.cons hshows .nil)

end Tracks

section

variable {setup : Setup} {index : Nat} {config : Config} {logger : Logger} {ref : SnapshotStack}
  {application : Option String}

theorem log_matches (traced : setup.sink = .trace) (tagged : logger.tagged = true)
    (source : LogRecord.sourceKey ∉ config.propertyNames)
    (static : ∀ key ∈ config.propertyNames, logger.attributes.find? key = none)
    (level : LogLevel) (message : String) {attributes : Attributes}
    (avoids : ∀ key ∈ config.propertyNames, attributes.find? key = none) :
    Work.Matches (Tracks (ω := ω) setup index config ref application)
      (Session.shared (World.log setup logger level message attributes))
      (ScopedProgram.expectRecord logger level attributes ref.top) := by
  intro s o h
  rw [Session.ends_shared, World.log, ScopedProgram.expectRecord, Work.ends_bind, Work.ends_ofExcept]
  simp only [Work.ends_bind, Work.ends_ofExcept]
  cases hcheck : level.call.check attributes.keys with
  | error e => exact ⟨rfl, h⟩
  | ok =>
    by_cases hadmits : logger.admits level.severity = true
    · rw [Work.ends_of_ok (World.emit_of_admits traced hadmits message attributes s.world)]
      rw [if_pos hadmits, Work.ends_modify]
      exact ⟨rfl, h.log (h.shows_record tagged source static level message avoids _) _⟩
    · rw [Work.ends_of_ok (World.emit_of_not_admits hadmits message attributes s.world)]
      rw [if_neg hadmits]
      exact ⟨rfl, h⟩

theorem inApplication_matches {body : Work Failure (Session ω) Unit}
    {other : Work Failure Outlook Unit} (name : Option String)
    (hbody : Work.Matches (Tracks setup index config ref name) body other) :
    Work.Matches (Tracks setup index config ref application) (Session.inApplication name body)
      other := by
  intro s o h
  rw [Session.inApplication, Work.ends_bind, Work.ends_get]
  simp only
  rw [Work.ends_bind, Session.ends_shared, Work.ends_modify]
  simp only
  rw [Work.ends_ensuring]
  refine (hbody _ o (h.setApplication name)).imp ?_
  intro r t ht
  rw [Session.ends_shared, Work.ends_modify]
  refine ht.imp ?_
  intro r' o' ho
  obtain ⟨hr, htracks⟩ := ho
  refine ⟨hr, ?_⟩
  have hback := htracks.setApplication application
  rw [← h.application] at hback
  rw [← h.application]
  exact hback

theorem ends_byProjection {α : Type} {none : α}
    {work : Projection Failure World → Work Failure (SectionStack × World) α}
    (projection : setup.projections[index]? = some ⟨config, .ambient, .none⟩) {s : Session ω}
    {post : Except Failure α → Session ω → Prop} :
    (Session.byProjection setup index none work).Ends s post ↔
      (work (setup.plainProjection index config)).Ends (s.stack index, s.world) fun r t =>
        post r { s with sectionStacks := s.sectionStacks.set index t.1, world := t.2 } := by
  rw [Session.byProjection, projection]
  exact Session.ends_focus

/-- Entering a section keeps track of the session, inside its values if it changed anything. -/
theorem Tracks.push (reliable : setup.backing.Reliable)
    (projection : setup.projections[index]? = some ⟨config, .ambient, none⟩) (e : Execution)
    {s : Session ω} {o : Outlook}
    (h : Tracks setup index config ref application s o) :
    (Session.byProjection setup index false (·.push (.ofExecution e))).Ends s fun r t =>
      ∃ changed after, r = .ok changed ∧ (changed = true → config.isEnabled = true) ∧
        ref.Entered (config.scope application e ref.top) changed after ∧
        Tracks setup index config after application t o.enter := by
  have owns := Setup.owns_plainProjection reliable index config
  have respects := setup.respects_scene index config application s.world.records
  have htracked : (s.stack index).hasTracked = true →
      (setup.plainProjection index config).Agrees (World.stored setup.backing)
        (s.stack index, s.world) := by
    intro ht
    cases he : o.entered with
    | true => exact h.agrees he
    | false =>
      rw [(h.fresh he).2] at ht
      cases ht
  have hagrees := owns.push respects (.ofExecution e) (s.stack index) s.world htracked
    ⟨h.application, rfl⟩
  have hscope := setup.push_scope index config reliable e (s.stack index) s.world
  rw [ends_byProjection projection]
  refine (hscope.and hagrees).imp ?_
  intro r t ht
  obtain ⟨⟨changed, hr, henabled, hentered⟩, hagrees, happ, hrecords⟩ := ht
  rw [h.snapshots, h.application, h.top_eq] at hentered
  refine ⟨changed, t.1.snapshots, hr, henabled, hentered, ?_⟩
  have hstack := Session.stack_set h.present t.1 t.2
  exact {
    present := by simpa using h.present
    snapshots := by rw [hstack]
    application := happ
    fresh := by simp [Outlook.enter]
    agrees := by
      intro _
      rw [hstack]
      exact hagrees
    shown := by
      rw [hrecords]
      exact h.shown }

theorem Tracks.entered_of_open {env m : Snapshot} {rest : List Snapshot} {s : Session ω}
    {o : Outlook} (h : Tracks setup index config ⟨env, m :: rest⟩ application s o) :
    o.entered = true := by
  cases he : o.entered with
  | true => rfl
  | false =>
    have hbelow := (h.fresh he).1
    cases hbelow

theorem Tracks.pop (reliable : setup.backing.Reliable)
    (projection : setup.projections[index]? = some ⟨config, .ambient, none⟩)
    (enabled : config.isEnabled = true) {env : Snapshot} {s : Session ω} {o : Outlook}
    (h : Tracks setup index config ⟨env, ref.maps⟩ application s o) :
    (Session.byProjection setup index () (·.pop)).Ends s fun r t =>
      r = .ok () ∧ ∀ o', Tracks setup index config ⟨env, ref.maps⟩ application s o' →
        Tracks setup index config ref application t o' := by
  have owns := Setup.owns_plainProjection reliable index config
  have respects := setup.respects_scene index config application s.world.records
  have hagrees := (owns.settled respects).pop (s.stack index, s.world)
    ⟨h.agrees h.entered_of_open, h.application, rfl⟩
  have hscope := setup.pop_scope index config reliable enabled (s.stack index) s.world
  rw [ends_byProjection projection]
  refine (hscope.and hagrees).imp ?_
  intro r t ht
  obtain ⟨⟨hr, hpop⟩, hagrees, happ, hrecords⟩ := ht
  refine ⟨hr, fun o' h' => ?_⟩
  have hstack := Session.stack_set h.present t.1 t.2
  exact {
    present := by simpa using h.present
    snapshots := by
      rw [hstack, hpop, h.snapshots]
      rfl
    application := happ
    fresh := by simp [h'.entered_of_open]
    agrees := by
      intro _
      rw [hstack]
      exact hagrees
    shown := by
      rw [hrecords]
      exact h'.shown }

theorem inSection_matches (reliable : setup.backing.Reliable)
    (projection : setup.projections[index]? = some ⟨config, .ambient, none⟩) (e : Execution)
    {body : Work Failure (Session ω) Unit} {other : Work Failure Outlook Unit}
    (hbody : ∀ inner : SnapshotStack, inner.top = config.scope application e ref.top →
      Work.Matches (Tracks setup index config inner application) body other) :
    Work.Matches (Tracks setup index config ref application)
      (Session.inSection setup index (.ofExecution e) fun _ => body)
      (do modify Outlook.enter; other) := by
  intro s o h
  have hother : ∀ post : Except Failure Unit → Outlook → Prop,
      (do modify Outlook.enter; other : Work Failure Outlook Unit).Ends o post ↔
        other.Ends o.enter post := fun _ => Work.ends_bind
  simp only [hother]
  rw [Session.inSection, Work.bracket, Work.ends_bind]
  refine (h.push reliable projection e).imp ?_
  intro r t ht
  obtain ⟨changed, after, hr, henabled, hentered, htracks⟩ := ht
  subst hr
  cases changed with
  | false =>
    obtain ⟨hafter, henv⟩ := hentered
    subst hafter
    exact hbody after henv.symm t o.enter htracks
  | true =>
    have hafter : after = ⟨config.scope application e ref.top, ref.maps⟩ := hentered
    subst hafter
    simp only [↓reduceIte]
    rw [Work.ends_ensuring]
    refine (hbody _ rfl t o.enter htracks).imp ?_
    intro r u hu
    have hinner := (Work.ends_iff.mp hu).2
    refine (hinner.pop reliable projection (henabled rfl)).imp ?_
    intro r' v hv
    obtain ⟨hr', hback⟩ := hv
    subst hr'
    refine hu.imp ?_
    intro r'' o'' ho
    exact ⟨ho.1, hback o'' ho.2⟩

theorem run_matches (reliable : setup.backing.Reliable) (traced : setup.sink = .trace)
    (projection : setup.projections[index]? = some ⟨config, .ambient, none⟩)
    (tagged : logger.tagged = true) (source : LogRecord.sourceKey ∉ config.propertyNames)
    (static : ∀ key ∈ config.propertyNames, logger.attributes.find? key = none)
    {program : ScopedProgram} (avoids : program.Avoids config.propertyNames) :
    Work.Matches (Tracks (ω := ω) setup index config ref application)
      (program.run setup index logger) (program.meaning config logger ref.top application) := by
  induction program generalizing ref application with
  | done => exact Work.matches_pure _
  | log level message attributes rest ih =>
    exact (log_matches traced tagged source static level message avoids.1).bind fun _ =>
      ih avoids.2
  | fail failure => exact Work.matches_throw _
  | inSection e body rest ihb ih =>
    have hbody : ∀ inner : SnapshotStack, inner.top = config.scope application e ref.top →
        Work.Matches (Tracks (ω := ω) setup index config inner application)
          (body.run setup index logger)
          (body.meaning config logger (config.scope application e ref.top) application) :=
      fun inner htop => htop ▸ ihb avoids.1
    exact (inSection_matches reliable projection e hbody).bind fun _ => ih avoids.2
  | inApplication name body rest ihb ih =>
    exact (inApplication_matches name (ihb avoids.1)).bind fun _ => ih avoids.2
  | rescue handles body handler rest ihb ihh ih =>
    exact ((ihb avoids.1).rescue fun e => ihh e (avoids.2.1 e)).bind fun _ => ih avoids.2.2

theorem tracks_start (projection : setup.projections[index]? = some ⟨config, .ambient, none⟩) :
    Tracks setup index config .start none (Session.start setup : Session ω) .start := by
  obtain ⟨hlt, _⟩ := List.getElem?_eq_some_iff.mp projection
  have hstack : (Session.start setup : Session ω).stack index = .empty := by
    simp only [Session.start, Session.stack, List.getElem?_map, projection, Option.map_some,
      Option.getD_some]
  exact {
    present := by simpa [Session.start] using hlt
    snapshots := by
      rw [hstack]
      exact SectionStack.snapshots_empty
    application := setup.scene_world.1
    fresh := by
      intro _
      rw [hstack]
      exact ⟨rfl, rfl⟩
    agrees := by
      intro h
      cases h
    shown := by
      have hrecords : (Session.start setup : Session ω).world.records = [] := setup.scene_world.2
      rw [hrecords]
      exact .nil }

/-- Records are tagged by lexical scope: from the first section on, every record shows, under each
active key, the value that the sections and applications around its call give this key. -/
theorem records_follow_scopes (reliable : setup.backing.Reliable) (traced : setup.sink = .trace)
    (projection : setup.projections[index]? = some ⟨config, .ambient, none⟩)
    (tagged : logger.tagged = true) (source : LogRecord.sourceKey ∉ config.propertyNames)
    (static : ∀ key ∈ config.propertyNames, logger.attributes.find? key = none)
    (program : ScopedProgram) (avoids : program.Avoids config.propertyNames) :
    (program.meaning config logger .blank none).outcome .start =
        (program.run setup index logger).outcome (Session.start setup : Session ω) ∧
      List.Forall₂ config.Shows
        ((program.run setup index logger).leaves (Session.start setup : Session ω)).world.records
        ((program.meaning config logger .blank none).leaves .start).expected := by
  have hmatches : Work.Matches (Tracks (ω := ω) setup index config .start none) _ _ :=
    run_matches reliable traced projection tagged source static avoids
  obtain ⟨houtcome, htracks⟩ := hmatches.leaves (tracks_start projection)
  exact ⟨houtcome, htracks.shown⟩

end

/-- Two roles share a key. -/
def sharedKeyConfig : Config := .ofRoles fun
  | .activityId | .businessKey => some "id"
  | .applicationName => some "app"
  | _ => none

def sharedKeySetup : Setup where
  backing := .recording []
  initial := [("id", "left over"), ("user", "u")]
  projections := [⟨sharedKeyConfig, .ambient, none⟩]
  clock := 0
  clockStep := 1
  sink := .trace

def orderExecution : Execution := { businessKey := some "order" }

def paymentExecution : Execution := { activityId := some "pay" }

/-- The inner one of two sections fails, and the failure is handled around the outer one. -/
def rescuedProgram : ScopedProgram :=
  .log .info "before" .empty <|
  .inApplication (some "shop")
    (.rescue (fun _ => true)
      (.inSection orderExecution
        (.log .info "outer" .empty <|
          .inSection paymentExecution
            (.log .info "inner" .empty <| .fail (.raised "no money")) .done)
        .done)
      (fun _ => .log .error "caught" .empty .done) .done) <|
  .log .info "after" .empty .done

theorem records_follow_scopes_rescued :
    (rescuedProgram.run sharedKeySetup 0 Demonstration.logger).outcome
        (Session.start sharedKeySetup : Session Unit) = .ok () ∧
      List.Forall₂ sharedKeyConfig.Shows
        ((rescuedProgram.run sharedKeySetup 0 Demonstration.logger).leaves
          (Session.start sharedKeySetup : Session Unit)).world.records
        [none, some (sharedKeyConfig.scope (some "shop") orderExecution .blank),
          some (sharedKeyConfig.scope (some "shop") paymentExecution
            (sharedKeyConfig.scope (some "shop") orderExecution .blank)),
          some .blank, some .blank] := by
  have hempty : ∀ key ∈ sharedKeyConfig.propertyNames,
      (OrderedMap.empty : Attributes).find? key = none := fun _ _ => rfl
  have havoids : rescuedProgram.Avoids sharedKeyConfig.propertyNames := by
    simp only [rescuedProgram, ScopedProgram.Avoids, and_true]
    exact ⟨hempty, ⟨⟨hempty, hempty⟩, fun _ => hempty⟩, hempty⟩
  have hsource : LogRecord.sourceKey ∉ sharedKeyConfig.propertyNames := by decide +kernel
  have houtcome : (rescuedProgram.meaning sharedKeyConfig Demonstration.logger .blank none).outcome
      .start = .ok () := rfl
  have hrun := @records_follow_scopes Unit sharedKeySetup 0 sharedKeyConfig Demonstration.logger
    rfl rfl rfl rfl hsource hempty rescuedProgram havoids
  exact ⟨hrun.1.symm.trans houtcome, hrun.2⟩

end LogContext
