namespace LogContext

/-- A finite map that remembers in which order its keys were first written. -/
structure OrderedMap (κ : Type) (ν : Type) where
  pairs : List (κ × ν)
  distinct : (pairs.map Prod.fst).Nodup

namespace OrderedMap

variable {κ ν : Type} [DecidableEq κ]

/-- A present key keeps its place and takes the new value; a new key goes to the end. -/
def insertPairs (key : κ) (value : ν) : List (κ × ν) → List (κ × ν)
  | [] => [(key, value)]
  | (k, v) :: rest => if k = key then (key, value) :: rest else (k, v) :: insertPairs key value rest

def findPairs (key : κ) : List (κ × ν) → Option ν
  | [] => none
  | (k, v) :: rest => if k = key then some v else findPairs key rest

theorem mem_keys_insertPairs (key k : κ) (value : ν) (pairs : List (κ × ν)) :
    k ∈ (insertPairs key value pairs).map Prod.fst ↔ k = key ∨ k ∈ pairs.map Prod.fst := by
  induction pairs with
  | nil => simp [insertPairs]
  | cons pair rest ih =>
    by_cases h : pair.1 = key
    · simp only [insertPairs, h, ↓reduceIte, List.map_cons, List.mem_cons]
      grind
    · simp only [insertPairs, h, ↓reduceIte, List.map_cons, List.mem_cons, ih]
      grind

theorem nodup_insertPairs (key : κ) (value : ν) {pairs : List (κ × ν)}
    (h : (pairs.map Prod.fst).Nodup) : ((insertPairs key value pairs).map Prod.fst).Nodup := by
  induction pairs with
  | nil => simp [insertPairs]
  | cons pair rest ih =>
    simp only [List.map_cons, List.nodup_cons] at h
    by_cases hk : pair.1 = key
    · simp only [insertPairs, hk, ↓reduceIte, List.map_cons, List.nodup_cons]
      exact ⟨hk ▸ h.1, h.2⟩
    · simp only [insertPairs, hk, ↓reduceIte, List.map_cons, List.nodup_cons]
      refine ⟨fun hm => ?_, ih h.2⟩
      rcases (mem_keys_insertPairs key pair.1 value rest).mp hm with hm | hm
      · exact hk hm
      · exact h.1 hm

def empty : OrderedMap κ ν := ⟨[], List.nodup_nil⟩

def keys (m : OrderedMap κ ν) : List κ := m.pairs.map Prod.fst

def find? (m : OrderedMap κ ν) (key : κ) : Option ν := findPairs key m.pairs

def insert (m : OrderedMap κ ν) (key : κ) (value : ν) : OrderedMap κ ν :=
  ⟨insertPairs key value m.pairs, nodup_insertPairs key value m.distinct⟩

def erase (m : OrderedMap κ ν) (key : κ) : OrderedMap κ ν :=
  ⟨m.pairs.filter (fun pair => pair.1 ≠ key), m.distinct.sublist (List.filter_sublist.map Prod.fst)⟩

/-- Of a repeated key the first place and the last value count. -/
def insertAll (m : OrderedMap κ ν) (pairs : List (κ × ν)) : OrderedMap κ ν :=
  pairs.foldl (fun m pair => m.insert pair.1 pair.2) m

def ofPairs (pairs : List (κ × ν)) : OrderedMap κ ν := empty.insertAll pairs

instance : Inhabited (OrderedMap κ ν) := ⟨empty⟩

omit [DecidableEq κ] in
theorem ext_pairs {a b : OrderedMap κ ν} (h : a.pairs = b.pairs) : a = b := by
  cases a; cases b; simpa using h

instance [DecidableEq ν] : DecidableEq (OrderedMap κ ν) := fun a b =>
  decidable_of_iff (a.pairs = b.pairs) ⟨ext_pairs, fun h => h ▸ rfl⟩

theorem findPairs_insertPairs (key k : κ) (value : ν) (pairs : List (κ × ν)) :
    findPairs k (insertPairs key value pairs) =
      if k = key then some value else findPairs k pairs := by
  induction pairs with
  | nil => simp only [insertPairs, findPairs]; grind
  | cons pair rest ih =>
    by_cases h : pair.1 = key
    · simp only [insertPairs, h, ↓reduceIte, findPairs]; grind
    · simp only [insertPairs, h, ↓reduceIte, findPairs, ih]; grind

theorem find?_insert (m : OrderedMap κ ν) (key k : κ) (value : ν) :
    (m.insert key value).find? k = if k = key then some value else m.find? k :=
  findPairs_insertPairs key k value m.pairs

theorem findPairs_filter_ne (key k : κ) (pairs : List (κ × ν)) :
    findPairs k (pairs.filter (fun pair => pair.1 ≠ key)) =
      if k = key then none else findPairs k pairs := by
  induction pairs with
  | nil => simp [findPairs]
  | cons pair rest ih =>
    by_cases h : pair.1 = key
    · simp only [List.filter_cons, h, ne_eq, not_true_eq_false, decide_false, Bool.false_eq_true,
        ↓reduceIte, findPairs, ih]
      grind
    · simp only [List.filter_cons, h, ne_eq, not_false_eq_true, decide_true, ↓reduceIte, findPairs,
        ih]
      grind

theorem find?_erase (m : OrderedMap κ ν) (key k : κ) :
    (m.erase key).find? k = if k = key then none else m.find? k :=
  findPairs_filter_ne key k m.pairs

theorem keys_insertPairs (key : κ) (value : ν) (pairs : List (κ × ν)) :
    (insertPairs key value pairs).map Prod.fst =
      if key ∈ pairs.map Prod.fst then pairs.map Prod.fst else pairs.map Prod.fst ++ [key] := by
  induction pairs with
  | nil => rfl
  | cons pair rest ih =>
    by_cases h : pair.1 = key
    · simp [insertPairs, h]
    · have hne : key ≠ pair.1 := fun eq => h eq.symm
      simp only [insertPairs, h, ↓reduceIte, List.map_cons, ih, List.mem_cons, hne, false_or]
      split <;> rfl

/-- A value that is replaced keeps its place; one that was removed before goes to the end. -/
theorem keys_insert (m : OrderedMap κ ν) (key : κ) (value : ν) :
    (m.insert key value).keys = if key ∈ m.keys then m.keys else m.keys ++ [key] :=
  keys_insertPairs key value m.pairs

theorem findPairs_eq_none_of_not_mem {key : κ} {pairs : List (κ × ν)}
    (h : key ∉ pairs.map Prod.fst) : findPairs key pairs = none := by
  induction pairs with
  | nil => rfl
  | cons pair rest ih =>
    rw [List.map_cons, List.mem_cons, not_or] at h
    rw [findPairs, if_neg (Ne.symm h.1), ih h.2]

theorem find?_eq_none_of_not_mem {m : OrderedMap κ ν} {key : κ} (h : key ∉ m.keys) :
    m.find? key = none :=
  findPairs_eq_none_of_not_mem h

theorem ne_of_findPairs_eq_none {key : κ} {pairs : List (κ × ν)} (h : findPairs key pairs = none) :
    ∀ pair ∈ pairs, pair.1 ≠ key := by
  induction pairs with
  | nil => exact fun _ hm => nomatch hm
  | cons first rest ih =>
    rw [findPairs] at h
    split at h
    next => cases h
    next hne =>
      intro pair hm
      rcases List.mem_cons.mp hm with rfl | hm
      · exact hne
      · exact ih h pair hm

theorem erase_of_find?_eq_none {m : OrderedMap κ ν} {key : κ} (h : m.find? key = none) :
    m.erase key = m := by
  refine ext_pairs (List.filter_eq_self.mpr fun pair hm => ?_)
  simpa using ne_of_findPairs_eq_none h pair hm

theorem insertPairs_of_not_mem {key : κ} {pairs : List (κ × ν)} (h : key ∉ pairs.map Prod.fst)
    (value : ν) : insertPairs key value pairs = pairs ++ [(key, value)] := by
  induction pairs with
  | nil => rfl
  | cons pair rest ih =>
    rw [List.map_cons, List.mem_cons, not_or] at h
    rw [insertPairs, if_neg (Ne.symm h.1), ih h.2, List.cons_append]

theorem pairs_insertAll {m : OrderedMap κ ν} {pairs : List (κ × ν)}
    (distinct : ((m.pairs ++ pairs).map Prod.fst).Nodup) :
    (m.insertAll pairs).pairs = m.pairs ++ pairs := by
  induction pairs generalizing m with
  | nil => exact (List.append_nil _).symm
  | cons pair rest ih =>
    have hfresh : pair.1 ∉ m.pairs.map Prod.fst := by
      rw [List.map_append, List.map_cons] at distinct
      exact fun hm => (List.nodup_append.mp distinct).2.2 _ hm _ List.mem_cons_self rfl
    have hinsert : (m.insert pair.1 pair.2).pairs = m.pairs ++ [pair] :=
      insertPairs_of_not_mem hfresh pair.2
    have hrest := ih (m := m.insert pair.1 pair.2) (by
      rw [hinsert, List.append_assoc]
      exact distinct)
    rw [hinsert, List.append_assoc] at hrest
    exact hrest

theorem pairs_ofPairs {pairs : List (κ × ν)} (distinct : (pairs.map Prod.fst).Nodup) :
    (ofPairs pairs).pairs = pairs :=
  pairs_insertAll (m := empty) distinct

end OrderedMap

end LogContext
