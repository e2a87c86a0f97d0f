import LogContext.Proofs.LineBreaks
import Mathlib.Data.List.Sort

namespace LogContext

namespace OrderedMap

variable {κ ν : Type} [DecidableEq κ]

theorem findPairs_eq_some_iff {pairs : List (κ × ν)} (distinct : (pairs.map Prod.fst).Nodup)
    {key : κ} {value : ν} : findPairs key pairs = some value ↔ (key, value) ∈ pairs := by
  induction pairs with
  | nil => simp [findPairs]
  | cons pair rest ih =>
    obtain ⟨hnot, hrest⟩ := List.nodup_cons.mp distinct
    rw [findPairs]
    split
    next heq =>
      have hother : (key, value) ∉ rest :=
        fun hm => hnot (heq ▸ List.mem_map_of_mem (f := Prod.fst) hm)
      simp [hother, Prod.ext_iff, heq]
      exact eq_comm
    next hne =>
      rw [ih hrest, List.mem_cons, or_iff_right]
      exact fun heq => hne (congrArg Prod.fst heq).symm

theorem find?_eq_some_iff {m : OrderedMap κ ν} {key : κ} {value : ν} :
    m.find? key = some value ↔ (key, value) ∈ m.pairs :=
  findPairs_eq_some_iff m.distinct

/-- A map in another order has the same values. -/
theorem find?_of_perm {m n : OrderedMap κ ν} (h : m.pairs.Perm n.pairs) (key : κ) :
    m.find? key = n.find? key := by
  ext value
  rw [find?_eq_some_iff, find?_eq_some_iff, h.mem_iff]

end OrderedMap

namespace LogRecord

/-- Pairs in braces, if there are any. -/
def inBraces : List (String × Value) → List Char
  | [] => []
  | pair :: rest =>
    " \x7b".toList ++
      commaJoin ((pair :: rest).map fun pair => pair.1.toList ++ '=' :: pair.2.plain) ++ ['\x7d']

theorem commaJoin_cons_ne_nil {text : List Char} (h : text ≠ []) (rest : List (List Char)) :
    commaJoin (text :: rest) ≠ [] := by
  cases rest with
  | nil => exact h
  | cons next rest =>
    rw [commaJoin_cons_cons, List.append_assoc]
    exact List.append_ne_nil_of_left_ne_nil h _

variable (record : LogRecord)

/-- A key with its value is a text even if both are empty, so braces are left out only where there is
nothing to show. -/
theorem bracesText_eq : record.bracesText = inBraces record.contextPairs := by
  rw [bracesText, contextText]
  cases record.contextPairs with
  | nil => rfl
  | cons pair rest =>
    have hne := commaJoin_cons_ne_nil (List.append_ne_nil_of_right_ne_nil pair.1.toList
      (List.cons_ne_nil '=' pair.2.plain))
      (rest.map fun pair => pair.1.toList ++ '=' :: pair.2.plain)
    simp only [List.map_cons, List.isEmpty_iff, hne, ↓reduceIte]
    rfl

theorem mem_contextPairs {key : String} {value : Value} :
    (key, value) ∈ record.contextPairs ↔
      record.attributes.find? key = some value ∧ key ∉ reservedKeys := by
  rw [record.contextPairs_perm.mem_iff, shownPairs, List.mem_filter,
    OrderedMap.find?_eq_some_iff]
  simp

/-- Keys are distinct, so that they ascend strictly. -/
theorem contextPairs_ascend : record.contextPairs.Pairwise fun a b => a.1 < b.1 := by
  have hdistinct : record.contextPairs.Pairwise fun a b => a.1 ≠ b.1 := by
    have hshown : (record.shownPairs.map Prod.fst).Nodup :=
      record.attributes.distinct.sublist (List.filter_sublist.map Prod.fst)
    exact List.pairwise_map.mp ((record.contextPairs_perm.map Prod.fst).nodup_iff.mpr hshown)
  have hsorted : record.contextPairs.Pairwise fun a b => decide (a.1 ≤ b.1) = true :=
    List.pairwise_mergeSort
      (fun a b c hab hbc => by
        simp only [decide_eq_true_eq] at hab hbc ⊢
        exact String.le_trans hab hbc)
      (fun a b => by
        simp only [Bool.or_eq_true, decide_eq_true_eq]
        exact String.le_total a.1 b.1) record.shownPairs
  refine hsorted.imp₂ (fun a b hle hne => ?_) hdistinct
  exact Std.lt_of_le_of_ne (of_decide_eq_true hle) hne

theorem inBraces_eq_nil_iff {pairs : List (String × Value)} : inBraces pairs = [] ↔ pairs = [] := by
  cases pairs with
  | nil => simp [inBraces]
  | cons pair rest => simp [inBraces]

theorem bracesText_eq_nil_iff : record.bracesText = [] ↔
    ∀ key ∈ record.attributes.keys, key ∈ reservedKeys := by
  rw [bracesText_eq, inBraces_eq_nil_iff]
  constructor
  · intro hnone key hkey
    obtain ⟨⟨key, value⟩, hm, rfl⟩ := List.mem_map.mp hkey
    by_contra hshown
    have hpair : (key, value) ∈ record.contextPairs :=
      record.mem_contextPairs.mpr ⟨OrderedMap.find?_eq_some_iff.mpr hm, hshown⟩
    simp [hnone] at hpair
  · intro hall
    refine List.eq_nil_iff_forall_not_mem.mpr fun ⟨key, value⟩ hpair => ?_
    obtain ⟨hfind, hshown⟩ := record.mem_contextPairs.mp hpair
    have hm := OrderedMap.find?_eq_some_iff.mp hfind
    exact hshown (hall key (List.mem_map_of_mem (f := Prod.fst) hm))

variable {record}

/-- The same attributes in whatever order, but for the name of the service. -/
def SameButService (others attributes : Attributes) : Prop :=
  (others.erase "service.name").pairs.Perm (attributes.erase "service.name").pairs

theorem SameButService.find?_eq {others attributes : Attributes}
    (h : SameButService others attributes) {key : String} (hkey : key ≠ "service.name") :
    others.find? key = attributes.find? key := by
  have hfind := OrderedMap.find?_of_perm h key
  rwa [OrderedMap.find?_erase, OrderedMap.find?_erase, if_neg hkey, if_neg hkey] at hfind

section SameButService

variable {others : Attributes} (h : SameButService others record.attributes)
include h

theorem sourceText_eq_of_same :
    { record with attributes := others }.sourceText = record.sourceText := by
  have hsource : others.find? sourceKey = record.attributes.find? sourceKey :=
    h.find?_eq (by decide)
  rw [sourceText, sourceText, hsource]

/-- Pairs that ascend strictly are determined by their members. -/
theorem contextPairs_eq_of_same :
    { record with attributes := others }.contextPairs = record.contextPairs := by
  have hirrefl : Std.Irrefl fun a b : String × Value => a.1 < b.1 := ⟨fun a => String.lt_irrefl a.1⟩
  refine (contextPairs_ascend _).eq_of_mem_iff record.contextPairs_ascend fun ⟨key, value⟩ => ?_
  rw [mem_contextPairs, mem_contextPairs]
  refine and_congr_left fun hshown => ?_
  rw [h.find?_eq fun hkey => hshown (by simp [hkey, reservedKeys])]

theorem textLine_eq_of_same :
    { record with attributes := others }.textLine = record.textLine := by
  have hhead (time : CivilTime) :
      { record with attributes := others }.textHead time = record.textHead time := by
    simp only [textHead, bracesText_eq, sourceText_eq_of_same h, contextPairs_eq_of_same h]
  simp only [textLine, hhead]
  rfl

end SameButService

/-- The braces of a line show each attribute that is not reserved once, in ascending order of the
keys, and are left out only if there is none. Neither the order in which the attributes were
written nor the name of the service is seen in a line. -/
theorem text_context_is_canonical (record : LogRecord) (time : CivilTime)
    (htime : record.civilTime = .ok time) :
    (∃ pairs, (pairs.Pairwise fun a b => a.1 < b.1) ∧
      (∀ key value, (key, value) ∈ pairs ↔
        record.attributes.find? key = some value ∧ key ≠ "log.source" ∧ key ≠ "service.name") ∧
      (inBraces pairs = [] ↔
        ∀ key ∈ record.attributes.keys, key = "log.source" ∨ key = "service.name") ∧
      record.textLine = .ok (time.toSecondText ++ " [".toList ++
        (record.severityText.getD "None").toList ++ "] ".toList ++ record.sourceText ++
        inBraces pairs ++ "\t: ".toList ++ record.body.literal ++ ['\n'])) ∧
    ∀ others, SameButService others record.attributes →
      { record with attributes := others }.textLine = record.textLine := by
  refine ⟨⟨record.contextPairs, record.contextPairs_ascend, fun key value => ?_, ?_, ?_⟩,
    fun others h => textLine_eq_of_same h⟩
  · rw [mem_contextPairs]
    simp [reservedKeys, sourceKey]
  · rw [← bracesText_eq, bracesText_eq_nil_iff]
    simp [reservedKeys, sourceKey]
  · rw [textLine_of_civilTime htime, textHead, bracesText_eq]

/-- An empty key and an empty value are shown as well. -/
def unorderedRecord : LogRecord where
  body := .text "done"
  severityText := some "INFO"
  attributes := .ofPairs [("log.source", .text "Job"), ("b", .text "2"), ("service.name", .text "x"),
    ("", .text "")]

theorem text_context_is_canonical_unordered :
    unorderedRecord.civilTime = .ok ⟨1970, 1, 1, 0, 0, 0, 0⟩ ∧
    (∃ pairs, ("", Value.text "") ∈ pairs ∧ ("b", Value.text "2") ∈ pairs ∧
      unorderedRecord.textLine = .ok ("1970-01-01T00:00:00Z [INFO] Job".toList ++ inBraces pairs ++
        "\t: 'done'\n".toList)) ∧
    ∃ others : Attributes, others.keys = ["", "service.name", "b", "log.source"] ∧
      SameButService others unorderedRecord.attributes ∧
      { unorderedRecord with attributes := others }.textLine = unorderedRecord.textLine := by
  have htime : unorderedRecord.civilTime = .ok ⟨1970, 1, 1, 0, 0, 0, 0⟩ := civilTime_of_untimed rfl
  obtain ⟨⟨pairs, -, hpairs, -, hline⟩, hsame⟩ :=
    text_context_is_canonical unorderedRecord _ htime
  have hempty : ("", Value.text "") ∈ pairs := (hpairs _ _).mpr ⟨rfl, by decide, by decide⟩
  have hshown : ("b", Value.text "2") ∈ pairs := (hpairs _ _).mpr ⟨rfl, by decide, by decide⟩
  let others : Attributes := .ofPairs [("", .text ""), ("service.name", .text "y"), ("b", .text "2"),
    ("log.source", .text "Job")]
  have hothers : SameButService others unorderedRecord.attributes :=
    List.reverse_perm (unorderedRecord.attributes.erase "service.name").pairs
  refine ⟨htime, ⟨pairs, hempty, hshown, ?_⟩, others, rfl, hothers, hsame others hothers⟩
  have hhead : (⟨1970, 1, 1, 0, 0, 0, 0⟩ : CivilTime).toSecondText ++ " [".toList ++
      (unorderedRecord.severityText.getD "None").toList ++ "] ".toList ++
      unorderedRecord.sourceText = "1970-01-01T00:00:00Z [INFO] Job".toList := by decide +kernel
  have hbody : "\t: ".toList ++ unorderedRecord.body.literal ++ ['\n'] =
      "\t: 'done'\n".toList := by decide +kernel
  rw [hline, hhead, ← hbody]
  simp only [List.append_assoc]

end LogRecord

end LogContext
