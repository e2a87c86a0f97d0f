import LogContext.Logger

namespace LogContext

namespace OrderedMap

variable {κ ν : Type} [DecidableEq κ]

theorem insertAll_append (m : OrderedMap κ ν) (pairs more : List (κ × ν)) :
    m.insertAll (pairs ++ more) = (m.insertAll pairs).insertAll more :=
  List.foldl_append

theorem find?_insertAll {pairs : List (κ × ν)} (distinct : (pairs.map Prod.fst).Nodup)
    (m : OrderedMap κ ν) (key : κ) :
    (m.insertAll pairs).find? key = (findPairs key pairs).or (m.find? key) := by
  induction pairs generalizing m with
  | nil => rfl
  | cons pair rest ih =>
    obtain ⟨hfresh, hrest⟩ := List.nodup_cons.mp distinct
    have hstep : (m.insertAll (pair :: rest)).find? key =
        (findPairs key rest).or ((m.insert pair.1 pair.2).find? key) := ih hrest _
    rw [hstep, find?_insert, findPairs]
    by_cases eq : key = pair.1
    · subst eq
      rw [findPairs_eq_none_of_not_mem hfresh, if_pos rfl, if_pos rfl]
      rfl
    · rw [if_neg eq, if_neg (Ne.symm eq)]

theorem find?_insertAll_pairs (m n : OrderedMap κ ν) (key : κ) :
    (m.insertAll n.pairs).find? key = (n.find? key).or (m.find? key) :=
  find?_insertAll n.distinct m key

end OrderedMap

namespace Logger

theorem keys_tableAttributes (entries : OrderedMap String String) :
    (tableAttributes entries).map Prod.fst = entries.keys := by
  simp only [tableAttributes, List.map_map, OrderedMap.keys]
  rfl

theorem findPairs_tableAttributes (entries : OrderedMap String String) (key : String) :
    OrderedMap.findPairs key (tableAttributes entries) = (entries.find? key).map Value.text := by
  unfold tableAttributes OrderedMap.find?
  induction entries.pairs with
  | nil => rfl
  | cons pair rest ih =>
    rw [List.map_cons, OrderedMap.findPairs, OrderedMap.findPairs]
    split
    next => rfl
    next => exact ih

/-- The attributes of a call win over the static ones, these over the entries of the store, and
these over the source. -/
theorem find?_merged (logger : Logger) (entries : OrderedMap String String)
    (attributes : Attributes) (key : String) :
    (logger.merged entries attributes).find? key =
      (attributes.find? key).or ((logger.attributes.find? key).or
        (((entries.find? key).map Value.text).or
          (if key = LogRecord.sourceKey then some logger.source else none))) := by
  have hdistinct : ((tableAttributes entries).map Prod.fst).Nodup :=
    keys_tableAttributes entries ▸ entries.distinct
  have hmerged : logger.merged entries attributes =
      (((OrderedMap.empty.insert LogRecord.sourceKey logger.source).insertAll
        (tableAttributes entries)).insertAll logger.attributes.pairs).insertAll
          attributes.pairs := by
    rw [merged, OrderedMap.ofPairs, OrderedMap.insertAll_append, OrderedMap.insertAll_append]
    rfl
  rw [hmerged, OrderedMap.find?_insertAll_pairs, OrderedMap.find?_insertAll_pairs,
    OrderedMap.find?_insertAll hdistinct, findPairs_tableAttributes, OrderedMap.find?_insert]
  rfl

end Logger

end LogContext
