import LogContext.LoggerProgram
import LogContext.Proofs.RecordAttributes
import LogContext.Proofs.WorldStore
import Mathlib.Data.List.Basic

namespace LogContext

section FirstPlaces

variable {κ : Type}

theorem length_filter_lt_cons (keep : κ → Bool) (key : κ) (rest : List κ) :
    (rest.filter keep).length < (key :: rest).length :=
  Nat.lt_succ_of_le (List.length_filter_le keep rest)

variable [DecidableEq κ]

theorem nodup_eraseDups (keys : List κ) : keys.eraseDups.Nodup := by
  cases keys with
  | nil => exact .nil
  | cons key rest =>
    rw [List.eraseDups_cons, List.nodup_cons, List.mem_eraseDups]
    exact ⟨by simp, nodup_eraseDups (rest.filter fun other => !other == key)⟩
termination_by keys.length
decreasing_by exact length_filter_lt_cons _ key rest

theorem filter_eraseDups (keep : κ → Bool) (keys : List κ) :
    keys.eraseDups.filter keep = (keys.filter keep).eraseDups := by
  cases keys with
  | nil => rfl
  | cons key rest =>
    have hrest := filter_eraseDups keep (rest.filter fun other => !other == key)
    rw [List.eraseDups_cons]
    by_cases hkeep : keep key = true
    · rw [List.filter_cons_of_pos hkeep, List.filter_cons_of_pos hkeep, List.eraseDups_cons, hrest,
        List.filter_filter, List.filter_filter]
      simp only [Bool.and_comm]
    · rw [List.filter_cons_of_neg hkeep, List.filter_cons_of_neg hkeep, hrest, List.filter_filter]
      congr 1
      refine List.filter_congr fun other _ => ?_
      by_cases heq : other = key <;> simp [heq, hkeep]
termination_by keys.length
decreasing_by exact length_filter_lt_cons _ key rest

theorem eraseDups_of_nodup {keys : List κ} (distinct : keys.Nodup) : keys.eraseDups = keys := by
  induction keys with
  | nil => rfl
  | cons key rest ih =>
    obtain ⟨hfresh, hrest⟩ := List.nodup_cons.mp distinct
    have hall : (rest.filter fun other => !other == key) = rest :=
      List.filter_eq_self.mpr fun other ho => by simpa using ne_of_mem_of_not_mem ho hfresh
    rw [List.eraseDups_cons, hall, ih hrest]

/-- What is repeated in a part of a list counts for nothing in the whole. -/
theorem eraseDups_append_eraseDups (before keys after : List κ) :
    (before ++ keys.eraseDups ++ after).eraseDups = (before ++ keys ++ after).eraseDups := by
  have hpart : (before ++ keys.eraseDups).eraseDups = (before ++ keys).eraseDups := by
    rw [List.eraseDups_append, List.eraseDups_append, List.removeAll, List.removeAll,
      filter_eraseDups, eraseDups_of_nodup (nodup_eraseDups _)]
  have hrest : after.removeAll (before ++ keys.eraseDups) = after.removeAll (before ++ keys) :=
    List.filter_congr fun other _ => by simp
  rw [List.eraseDups_append, hpart, hrest]
  exact List.eraseDups_append.symm

end FirstPlaces

namespace OrderedMap

variable {κ ν : Type} [DecidableEq κ]

/-- The map is what pairs make one after the other: each key stands where it came first, with the
value that it came with last. -/
structure Merges (m : OrderedMap κ ν) (pairs : List (κ × ν)) : Prop where
  keys : m.keys = (pairs.map Prod.fst).eraseDups
  find? : ∀ key, m.find? key = findPairs key pairs.reverse

theorem findPairs_append (key : κ) (pairs more : List (κ × ν)) :
    findPairs key (pairs ++ more) = (findPairs key pairs).or (findPairs key more) := by
  induction pairs with
  | nil => rfl
  | cons pair rest ih =>
    rw [List.cons_append, findPairs, findPairs]
    split
    next => rfl
    next => exact ih

theorem findPairs_reverse {pairs : List (κ × ν)} (distinct : (pairs.map Prod.fst).Nodup) (key : κ) :
    findPairs key pairs.reverse = findPairs key pairs := by
  induction pairs with
  | nil => rfl
  | cons pair rest ih =>
    obtain ⟨hfresh, hrest⟩ := List.nodup_cons.mp distinct
    rw [List.reverse_cons, findPairs_append, ih hrest, findPairs, findPairs, findPairs]
    split
    next heq => rw [findPairs_eq_none_of_not_mem (heq ▸ hfresh), Option.none_or]
    next => rw [Option.or_none]

theorem merges_empty : (empty : OrderedMap κ ν).Merges [] := ⟨rfl, fun _ => rfl⟩

theorem merges_pairs (m : OrderedMap κ ν) : m.Merges m.pairs :=
  ⟨(eraseDups_of_nodup m.distinct).symm, fun key => (findPairs_reverse m.distinct key).symm⟩

theorem Merges.insert {m : OrderedMap κ ν} {pairs : List (κ × ν)} (h : m.Merges pairs)
    (key : κ) (value : ν) : (m.insert key value).Merges (pairs ++ [(key, value)]) := by
  constructor
  · rw [keys_insert, h.keys, List.map_append, List.map_singleton, List.eraseDups_append]
    by_cases hold : key ∈ pairs.map Prod.fst
    · rw [if_pos (List.mem_eraseDups.mpr hold)]
      simp [List.removeAll, hold]
    · rw [if_neg (mt List.mem_eraseDups.mp hold)]
      simp [List.removeAll, hold, List.eraseDups_cons]
  · intro other
    rw [find?_insert, h.find?, List.reverse_append, List.reverse_singleton, List.singleton_append,
      findPairs]
    by_cases heq : other = key
    · rw [if_pos heq, if_pos heq.symm]
    · rw [if_neg heq, if_neg (Ne.symm heq)]

theorem Merges.insertAll {m : OrderedMap κ ν} {pairs : List (κ × ν)} (h : m.Merges pairs)
    (more : List (κ × ν)) : (m.insertAll more).Merges (pairs ++ more) := by
  induction more generalizing m pairs with
  | nil =>
    rw [List.append_nil]
    exact h
  | cons pair rest ih =>
    rw [List.append_cons]
    exact ih (h.insert pair.1 pair.2)

theorem merges_ofPairs (pairs : List (κ × ν)) : (ofPairs pairs).Merges pairs :=
  merges_empty.insertAll pairs

/-- It makes no difference whether pairs are merged into a map of their own first. -/
theorem Merges.expand {m n : OrderedMap κ ν} {before pairs after : List (κ × ν)}
    (h : m.Merges (before ++ n.pairs ++ after)) (hn : n.Merges pairs) :
    m.Merges (before ++ pairs ++ after) := by
  constructor
  · have hkeys : n.pairs.map Prod.fst = (pairs.map Prod.fst).eraseDups := hn.keys
    rw [h.keys]
    simp only [List.map_append, hkeys, eraseDups_append_eraseDups]
  · intro key
    have hfind : findPairs key n.pairs.reverse = findPairs key pairs.reverse :=
      (findPairs_reverse n.distinct key).trans (hn.find? key)
    rw [h.find?]
    simp only [List.reverse_append, findPairs_append, hfind]

end OrderedMap

namespace Logger

/-- The source that the last of these attributes names, if any. -/
def lastSource? (chain : List Attributes) : Option Value :=
  chain.reverse.findSome? fun attributes => attributes.find? "source"

/-- What these attributes add to the static ones, in order. -/
def addedPairs (chain : List Attributes) : List (String × Value) :=
  chain.flatMap fun attributes => (attributes.erase "source").pairs

theorem lastSource?_cons (first : Attributes) (rest : List Attributes) :
    lastSource? (first :: rest) = (lastSource? rest).or (first.find? "source") := by
  rw [lastSource?, List.reverse_cons, List.findSome?_append, List.findSome?_singleton, lastSource?]

/-- The link of a chain: a derived logger adds to the static attributes of the one before it. -/
theorem merges_derive {logger : Logger} {pairs : List (String × Value)}
    (h : logger.attributes.Merges pairs) (attributes : Attributes) :
    (logger.derive attributes).attributes.Merges (pairs ++ (attributes.erase "source").pairs) :=
  h.insertAll _

theorem merges_foldl_derive {logger : Logger} {pairs : List (String × Value)}
    (h : logger.attributes.Merges pairs) (chain : List Attributes) :
    (chain.foldl derive logger).attributes.Merges (pairs ++ addedPairs chain) := by
  induction chain generalizing logger pairs with
  | nil =>
    rw [addedPairs, List.flatMap_nil, List.append_nil]
    exact h
  | cons first rest ih =>
    rw [addedPairs, List.flatMap_cons, ← List.append_assoc]
    exact ih (merges_derive h first)

theorem source_foldl_derive (logger : Logger) (chain : List Attributes) :
    (chain.foldl derive logger).source = (lastSource? chain).getD logger.source := by
  induction chain generalizing logger with
  | nil => rfl
  | cons first rest ih =>
    rw [List.foldl_cons, ih, lastSource?_cons, derive]
    cases lastSource? rest <;> rfl

/-- A derived logger tags from the same store and drops the same records. -/
theorem kept_foldl_derive (logger : Logger) (chain : List Attributes) :
    (chain.foldl derive logger).tagged = logger.tagged ∧
      (chain.foldl derive logger).threshold = logger.threshold := by
  induction chain generalizing logger with
  | nil => exact ⟨rfl, rfl⟩
  | cons first rest ih => exact ih (logger.derive first)

theorem merges_merged_foldl_derive (logger : Logger) (chain : List Attributes)
    (entries : OrderedMap String String) (attributes : Attributes) :
    ((chain.foldl derive logger).merged entries attributes).Merges
      ((LogRecord.sourceKey, (lastSource? chain).getD logger.source) :: tableAttributes entries ++
        (logger.attributes.pairs ++ addedPairs chain) ++ attributes.pairs) := by
  have hmerged := OrderedMap.merges_ofPairs ((LogRecord.sourceKey, (lastSource? chain).getD
    logger.source) :: tableAttributes entries ++ (chain.foldl derive logger).attributes.pairs ++
      attributes.pairs)
  rw [merged, source_foldl_derive]
  exact hmerged.expand (merges_foldl_derive logger.attributes.merges_pairs chain)

theorem admits_iff (logger : Logger) (severity : Severity) :
    logger.admits severity = true ↔
      ∀ least, logger.threshold = some least → least.number ≤ severity.number := by
  rw [admits]
  cases logger.threshold <;> simp

end Logger

namespace World

/-- A call whose arguments are given once each makes its record. -/
theorem log_of_allowed (setup : Setup) (logger : Logger) (level : LogLevel) (message : String)
    {attributes : Attributes} (allowed : ∀ name ∈ attributes.keys, name ∉ level.call.placed) :
    log setup logger level message attributes = emit setup logger level message attributes := by
  have hcheck : level.call.check attributes.keys = .ok () := by
    rw [CallShape.check, (level.call.repeated?_eq_none_iff _).mpr allowed]
  rw [log, hcheck]
  rfl

/-- What a derived logger makes of a call: one record if the level is not below the threshold of the
logger that the chain starts from, and nothing at all otherwise. -/
theorem log_foldl_derive (setup : Setup) (logger : Logger) (chain : List Attributes)
    (level : LogLevel) (message : String) {attributes : Attributes}
    (allowed : ∀ name ∈ attributes.keys, name ∉ level.call.placed) (w : World) :
    log setup (chain.foldl Logger.derive logger) level message attributes w =
      if logger.admits level.severity then
        deliver setup.sink ((chain.foldl Logger.derive logger).record
          (if logger.tagged then w.entries setup.backing else .empty) level message attributes
          w.clock) { w with clock := w.clock + setup.clockStep }
      else .ok () w := by
  obtain ⟨htagged, hthreshold⟩ := Logger.kept_foldl_derive logger chain
  rw [log_of_allowed setup _ level message allowed, emit, Logger.admits, hthreshold, htagged,
    ← Logger.admits]
  split
  next => rfl
  next => rfl

end World

open Logger

/-- A logger at the end of a chain reads the store and drops records as the first one does. A record
that it makes carries the source that was named last, the entries of the store, the static
attributes in the order of the chain, and those of the call: of a repeated key the first place and
the last value. -/
theorem derived_loggers_merge_in_order (setup : Setup) (logger : Logger) (chain : List Attributes)
    (level : LogLevel) (message : String) (attributes : Attributes)
    (allowed : ∀ name ∈ attributes.keys, name ∉ level.call.placed) (w : World) :
    let derived := chain.foldl Logger.derive logger
    let entries := if logger.tagged then w.entries setup.backing else .empty
    derived.tagged = logger.tagged ∧ derived.threshold = logger.threshold ∧
      ((∀ least, logger.threshold = some least → least.number ≤ level.severity.number) →
        ∃ merged : Attributes,
          merged.Merges ((LogRecord.sourceKey, (lastSource? chain).getD logger.source) ::
            tableAttributes entries ++ logger.attributes.pairs ++ addedPairs chain ++
            attributes.pairs) ∧
          World.log setup derived level message attributes w = World.deliver setup.sink
            { timestamp := some w.clock
              body := .text message
              severityText := some level.severity.name
              severity := some level.severity
              attributes := merged }
            { w with clock := w.clock + setup.clockStep }) ∧
      ∀ least, logger.threshold = some least → level.severity.number < least.number →
        World.log setup derived level message attributes w = .ok () w := by
  intro derived entries
  obtain ⟨htagged, hthreshold⟩ := kept_foldl_derive logger chain
  have hlog := World.log_foldl_derive setup logger chain level message allowed w
  refine ⟨htagged, hthreshold, fun above => ?_, fun least hleast below => ?_⟩
  · have hmerges := merges_merged_foldl_derive logger chain entries attributes
    rw [← List.append_assoc] at hmerges
    refine ⟨derived.merged entries attributes, hmerges, ?_⟩
    exact hlog.trans (if_pos ((logger.admits_iff level.severity).mpr above))
  · have hdrops : ¬ logger.admits level.severity = true := fun admits =>
      absurd ((logger.admits_iff level.severity).mp admits least hleast) (Nat.not_le.mpr below)
    exact hlog.trans (if_neg hdrops)

/-- A store with an entry under the key of the source. -/
def sourcedSetup : Setup where
  backing := .recording []
  initial := [("log.source", "stored"), ("job", "stored")]
  projections := []
  clock := 0
  clockStep := 1
  sink := .trace

def importLogger : Logger :=
  ⟨.text "import", true, .ofPairs [("job", .text "first"), ("step", .int 1)], some (.first .info)⟩

/-- Both links name a source, and the second one gives the step again. -/
def importChain : List Attributes :=
  [.ofPairs [("source", .text "parser"), ("part", .int 1)],
    .ofPairs [("step", .int 2), ("source", .text "writer")]]

theorem derived_loggers_merge_in_order_of_collisions :
    ∃ merged : Attributes,
      merged.keys = ["log.source", "job", "step", "part"] ∧
      merged.find? "log.source" = some (.text "stored") ∧
      merged.find? "job" = some (.text "called") ∧
      merged.find? "step" = some (.int 2) ∧
      ((World.log sourcedSetup (importChain.foldl Logger.derive importLogger) .info "done"
          (.ofPairs [("job", .text "called")])).leaves sourcedSetup.world).trace =
        [.logged { timestamp := some 0
                   body := .text "done"
                   severityText := some "INFO"
                   severity := some (.first .info)
                   attributes := merged }] := by
  obtain ⟨-, -, makes, -⟩ := derived_loggers_merge_in_order sourcedSetup importLogger importChain
    .info "done" (.ofPairs [("job", .text "called")]) (by decide) sourcedSetup.world
  obtain ⟨merged, hmerges, hlog⟩ := makes (by
    intro least hleast
    cases hleast
    decide)
  refine ⟨merged, hmerges.keys.trans (by decide), (hmerges.find? _).trans rfl,
    (hmerges.find? _).trans rfl, (hmerges.find? _).trans rfl, ?_⟩
  rw [Work.leaves, hlog]
  rfl

end LogContext
