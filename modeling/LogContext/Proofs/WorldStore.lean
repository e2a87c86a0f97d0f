import LogContext.Proofs.ContextEntries
import LogContext.Proofs.StoreMirror
import LogContext.World

namespace LogContext

/-- No call of the store is refused. -/
def Backing.Reliable : Backing → Prop
  | .recording refused => refused = []
  | .contextual _ => True

def TraceEvent.record? : TraceEvent → Option LogRecord
  | .logged record => some record
  | _ => none

namespace World

/-- What the store holds, as the context sees it that runs now. -/
def stored (backing : Backing) (w : World) : Snapshot := (w.entries backing).find?

/-- The records that were logged so far. -/
def records (w : World) : List LogRecord := w.trace.filterMap TraceEvent.record?

theorem records_note (w : World) (event : TraceEvent) :
    World.records { w with trace := w.trace ++ [event] } = w.records ++ event.record?.toList := by
  simp only [records, List.filterMap_append]
  cases h : event.record? <;> simp [h]

/-- The application that is current, and the records so far. -/
def Scene (application : Option String) (logged : List LogRecord) (w : World) : Prop :=
  w.space.application = application ∧ w.records = logged

variable {backing : Backing} {application : Option String} {logged : List LogRecord}

theorem keeps_scene_note {event : TraceEvent} (h : event.record? = none) :
    (note event).Keeps (Scene application logged) := by
  refine Work.keeps_modify fun w hw => ⟨hw.1, ?_⟩
  rw [records_note, h, hw.2, Option.toList_none, List.append_nil]

theorem keeps_refuse {K : World → Prop} (refused : List (StoreCall × String)) (call : StoreCall)
    (key : String) : (refuse refused call key).Keeps K := by
  unfold refuse
  split
  next => exact Work.keeps_throw _
  next => exact Work.keeps_pure _

theorem keeps_lookUp {K : World → Prop} {key : String} (hnote : (note (.lookedUp key)).Keeps K)
    (hread : ∀ name w, K w → K { w with space := (w.space.get name key).2 }) :
    (lookUp backing key).Keeps K := by
  cases backing with
  | recording refused =>
    exact hnote.bind fun _ => (keeps_refuse _ _ _).bind fun _ =>
      Work.keeps_get.bind fun _ => Work.keeps_pure _
  | contextual name => exact Work.keeps_modifyGet (hread name)

theorem keeps_put {K : World → Prop} {key value : String} (hnote : (note (.put key value)).Keeps K)
    (hstore : ∀ w, K w → K (World.store backing key value w)) : (put backing key value).Keeps K := by
  have hwrite : (modify (World.store backing key value) : Work Failure World Unit).Keeps K :=
    Work.keeps_modify hstore
  cases backing with
  | recording refused =>
    exact hnote.bind fun _ => (keeps_refuse _ _ _).bind fun _ => hwrite
  | contextual name => exact hwrite

theorem keeps_remove {K : World → Prop} {key : String} (hnote : (note (.removed key)).Keeps K)
    (hdiscard : ∀ w, K w → K (World.discard backing key w)) : (remove backing key).Keeps K := by
  have hwrite : (modify (World.discard backing key) : Work Failure World Unit).Keeps K :=
    Work.keeps_modify hdiscard
  cases backing with
  | recording refused =>
    exact hnote.bind fun _ => (keeps_refuse _ _ _).bind fun _ => hwrite
  | contextual name => exact hwrite

theorem keeps_scene_lookUp (key : String) :
    (lookUp backing key).Keeps (Scene application logged) :=
  keeps_lookUp (keeps_scene_note rfl) fun name w hw =>
    ⟨(ContextSpace.application_get w.space name key).trans hw.1, hw.2⟩

theorem scene_store (key value : String) {w : World} (h : Scene application logged w) :
    Scene application logged (World.store backing key value w) := by
  cases backing with
  | recording refused => exact h
  | contextual store =>
    exact ⟨(ContextSpace.application_put w.space store key value).trans h.1, h.2⟩

theorem scene_discard (key : String) {w : World} (h : Scene application logged w) :
    Scene application logged (World.discard backing key w) := by
  cases backing with
  | recording refused => exact h
  | contextual store =>
    exact ⟨(ContextSpace.application_remove w.space store key).trans h.1, h.2⟩

theorem keeps_scene_put (key value : String) :
    (put backing key value).Keeps (Scene application logged) :=
  keeps_put (keeps_scene_note rfl) fun _ hw => scene_store key value hw

theorem keeps_scene_remove (key : String) :
    (remove backing key).Keeps (Scene application logged) :=
  keeps_remove (keeps_scene_note rfl) fun _ hw => scene_discard key hw

theorem stored_store (backing : Backing) (key value : String) (w : World) :
    stored backing (World.store backing key value w) =
      Function.update (stored backing w) key (some value) := by
  funext other
  rw [Function.update_apply]
  cases backing with
  | recording refused => exact OrderedMap.find?_insert w.table key other value
  | contextual store =>
    simp only [stored, entries, World.store, ContextSpace.entries_put]
    exact OrderedMap.find?_insert _ key other value

theorem stored_discard (backing : Backing) (key : String) (w : World) :
    stored backing (World.discard backing key w) =
      Function.update (stored backing w) key none := by
  funext other
  rw [Function.update_apply]
  cases backing with
  | recording refused => exact OrderedMap.find?_erase w.table key other
  | contextual store => exact ContextSpace.find?_entries_remove w.space store key other

theorem lookUp_ok (reliable : backing.Reliable) (key : String) (w : World) :
    ∃ w', lookUp backing key w = .ok (stored backing w key) w' ∧
      stored backing w' = stored backing w := by
  cases backing with
  | recording refused =>
    have hempty : refused = [] := reliable
    subst hempty
    exact ⟨_, rfl, rfl⟩
  | contextual store =>
    refine ⟨{ w with space := (w.space.get store key).2 }, ?_, ?_⟩
    · simp only [stored, entries, ← ContextSpace.get_fst]
      rfl
    · simp only [stored, entries, ContextSpace.entries_get]

theorem put_ok (reliable : backing.Reliable) (key value : String) (w : World) :
    ∃ w', put backing key value w = .ok () w' ∧
      stored backing w' = Function.update (stored backing w) key (some value) := by
  cases backing with
  | recording refused =>
    have hempty : refused = [] := reliable
    subst hempty
    exact ⟨_, rfl, stored_store (.recording []) key value _⟩
  | contextual store => exact ⟨_, rfl, stored_store _ key value w⟩

theorem remove_ok (reliable : backing.Reliable) (key : String) (w : World) :
    ∃ w', remove backing key w = .ok () w' ∧
      stored backing w' = Function.update (stored backing w) key none := by
  cases backing with
  | recording refused =>
    have hempty : refused = [] := reliable
    subst hempty
    exact ⟨_, rfl, stored_discard (.recording []) key _⟩
  | contextual store => exact ⟨_, rfl, stored_discard _ key w⟩

theorem keeps_stored_resolve (m : Snapshot) (index : Nat) (resolver : Resolver) :
    (resolve index resolver).Keeps fun w => stored backing w = m := by
  cases resolver with
  | ambient => exact Work.keeps_get.bind fun _ => Work.keeps_pure _
  | answers names =>
    exact Work.Keeps.bind (Work.keeps_modify fun _ h => h) fun _ =>
      Work.keeps_modifyGet fun _ h => h
  | failing message =>
    exact Work.Keeps.bind (Work.keeps_modify fun _ h => h) fun _ => Work.keeps_throw _

/-- `K` says nothing about the clock, nor about what was traced, logged or written so far. -/
def Unlogged (K : World → Prop) : Prop :=
  ∀ w clock trace pending written, K w → K { w with clock, trace, pending, written }

variable {K : World → Prop}

theorem Unlogged.note (unlogged : Unlogged K) (event : TraceEvent) :
    (World.note event).Keeps K :=
  Work.keeps_modify fun w hw =>
    unlogged w w.clock (w.trace ++ [event]) w.pending w.written hw

theorem Unlogged.write (unlogged : Unlogged K) (text : List Char) : (World.write text).Keeps K :=
  Work.keeps_modify fun w hw => unlogged w w.clock w.trace w.pending (w.written ++ text) hw

theorem Unlogged.deliver (unlogged : Unlogged K) (sink : RecordSink) (record : LogRecord) :
    (World.deliver sink record).Keeps K := by
  cases sink with
  | trace => exact unlogged.note _
  | discard => exact unlogged.write _
  | immediate format => exact (unlogged.write _).bind fun _ => unlogged.write _
  | batched format =>
    refine (unlogged.write _).bind fun _ => Work.keeps_modify fun w hw => ?_
    exact unlogged w w.clock w.trace (w.pending ++ [record.provided]) w.written hw

theorem Unlogged.emit (unlogged : Unlogged K) (setup : Setup) (logger : Logger) (level : LogLevel)
    (message : String) (attributes : Attributes) :
    (World.emit setup logger level message attributes).Keeps K := by
  have htick : (tick setup.clockStep).Keeps K := Work.keeps_modifyGet fun w hw =>
    unlogged w (w.clock + setup.clockStep) w.trace w.pending w.written hw
  unfold World.emit
  split
  next => exact Work.keeps_get.bind fun _ => htick.bind fun _ => unlogged.deliver _ _
  next => exact Work.keeps_pure _

theorem unlogged_stored (m : Snapshot) : Unlogged fun w => stored backing w = m :=
  fun _ _ _ _ _ h => h

theorem deliver_ok (sink : RecordSink) (record : LogRecord) (w : World) :
    ∃ w', deliver sink record w = .ok () w' := by
  cases sink <;> exact ⟨_, rfl⟩

/-- A logger never fails, whatever becomes of its records. -/
theorem emit_ok (setup : Setup) (logger : Logger) (level : LogLevel) (message : String)
    (attributes : Attributes) (w : World) :
    ∃ w', emit setup logger level message attributes w = .ok () w' := by
  unfold emit
  split
  next => exact deliver_ok setup.sink _ _
  next => exact ⟨w, rfl⟩

theorem emit_of_admits {setup : Setup} (traced : setup.sink = .trace) {logger : Logger}
    {level : LogLevel} (admits : logger.admits level.severity = true) (message : String)
    (attributes : Attributes) (w : World) :
    emit setup logger level message attributes w = .ok () { w with
      clock := w.clock + setup.clockStep
      trace := w.trace ++ [.logged (logger.record
        (if logger.tagged then w.entries setup.backing else .empty) level message attributes
        w.clock)] } := by
  rw [emit, if_pos admits, traced]
  rfl

theorem emit_of_not_admits {setup : Setup} {logger : Logger} {level : LogLevel}
    (admits : logger.admits level.severity ≠ true) (message : String) (attributes : Attributes)
    (w : World) : emit setup logger level message attributes w = .ok () w := by
  rw [emit, if_neg admits]
  rfl

end World

open World

theorem Setup.scene_world (setup : Setup) : Scene none [] setup.world := by
  have hkeeps : ∀ (initial : List (String × String)) (w : World), Scene none [] w →
      Scene none [] (initial.foldl (fun w pair => World.store setup.backing pair.1 pair.2 w) w) := by
    intro initial
    induction initial with
    | nil => exact fun _ h => h
    | cons pair rest ih => exact fun w h => ih _ (scene_store pair.1 pair.2 h)
  exact hkeeps setup.initial _ ⟨rfl, rfl⟩

theorem World.Unlogged.report {K : World → Prop} (unlogged : Unlogged K) (setup : Setup)
    (index : Nat) (p : ProjectionSetup) (message : String) (sections : Option Nat) :
    ((setup.projection index p).report message sections).Keeps K := by
  simp only [Setup.projection]
  split
  next => exact Work.keeps_pure _
  next logger _ => exact unlogged.emit setup logger _ _ _

/-- A projection on a store that refuses nothing owns it, whatever its resolver and its logger. -/
theorem Setup.owns_projection {setup : Setup} (reliable : setup.backing.Reliable) (index : Nat)
    (p : ProjectionSetup) : (setup.projection index p).Owns (stored setup.backing) where
  lookUp := lookUp_ok reliable
  put := put_ok reliable
  remove := remove_ok reliable
  application := fun w => (keeps_stored_resolve (stored setup.backing w) index p.resolver).leaves rfl
  report := fun message sections w =>
    ((unlogged_stored _).report setup index p message sections).leaves (s := w) rfl

/-- A projection that asks the context for the application and reports to nobody. -/
def Setup.plainProjection (setup : Setup) (index : Nat) (config : Config) :
    Projection Failure World :=
  setup.projection index ⟨config, .ambient, none⟩

@[simp] theorem Setup.config_plainProjection (setup : Setup) (index : Nat) (config : Config) :
    (setup.plainProjection index config).config = config := rfl

theorem Setup.owns_plainProjection {setup : Setup} (reliable : setup.backing.Reliable) (index : Nat)
    (config : Config) : (setup.plainProjection index config).Owns (stored setup.backing) :=
  setup.owns_projection reliable index _

theorem Setup.respects_scene (setup : Setup) (index : Nat) (config : Config)
    (application : Option String) (logged : List LogRecord) :
    (setup.plainProjection index config).Respects (Scene application logged) where
  lookUp := keeps_scene_lookUp
  put := keeps_scene_put
  remove := keeps_scene_remove
  application := Work.keeps_get.bind fun _ => Work.keeps_pure _
  report := fun _ _ => Work.keeps_pure _

end LogContext
