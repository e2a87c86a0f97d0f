import LogContext.Proofs.JsonStrings

namespace LogContext

namespace Json

/-- What follows does not go on with a number. -/
def EndsNumber (rest : List Char) : Prop :=
  ∀ c ∈ rest.head?, c.isDigit = false ∧ c ≠ '.' ∧ c ≠ 'e' ∧ c ≠ 'E'

theorem spanDigits_append {digits rest : List Char} (hdigits : ∀ c ∈ digits, c.isDigit = true)
    (hrest : ∀ c ∈ rest.head?, c.isDigit = false) :
    spanDigits (digits ++ rest) = (digits, rest) := by
  induction digits with
  | nil =>
    cases rest with
    | nil => rfl
    | cons c rest => simp [spanDigits, hrest c rfl]
  | cons c digits ih =>
    obtain ⟨hc, hdigits⟩ := List.forall_mem_cons.mp hdigits
    rw [List.cons_append, spanDigits, if_pos hc, ih hdigits]
    rfl

theorem isDigit_of_mem_natDigits {n : Nat} {c : Char} (h : c ∈ natDigits n) : c.isDigit = true :=
  Nat.isDigit_of_mem_toDigits (by decide) (by decide) h

theorem digitsValue_natDigits (n : Nat) : digitsValue (natDigits n) = n := by
  have h : Nat.ofDigitChars 10 (natDigits n) 0 = n := Nat.ofDigitChars_ten_toDigits
  rw [Nat.ofDigitChars_eq_foldl] at h
  exact h

/-- The digits of a number do not start with a zero, but for those of zero. -/
theorem head?_natDigits {n : Nat} (h : 0 < n) : (natDigits n).head? ≠ some '0' := by
  induction n using Nat.strongRecOn with
  | _ n ih =>
    rw [natDigits, Nat.toDigits_eq_if (by decide)]
    split
    next hlt =>
      have hdigit : ∀ digit < 10, 0 < digit → Nat.digitChar digit ≠ '0' := by decide
      simpa using hdigit n hlt h
    next hle =>
      have hshorter := ih (n / 10) (by omega) (by omega)
      rw [natDigits] at hshorter
      cases hdigits : Nat.toDigits 10 (n / 10) with
      | nil => exact absurd hdigits Nat.toDigits_ne_nil
      | cons d digits => rwa [hdigits] at hshorter

/-- A whole number is written without a fraction and without a power. -/
theorem readUnsigned?_natDigits (n : Nat) {rest : List Char} (hrest : EndsNumber rest) :
    readUnsigned? (natDigits n ++ rest) = some (n, 0, rest) := by
  have hwhole : readWhole? (natDigits n ++ rest) = some (natDigits n, rest) := by
    rcases Nat.eq_zero_or_pos n with rfl | hpos
    · rfl
    · have hspan : spanDigits (natDigits n ++ rest) = (natDigits n, rest) :=
        spanDigits_append (fun _ hc => isDigit_of_mem_natDigits hc) fun c hc => (hrest c hc).1
      have hhead := head?_natDigits hpos
      cases hdigits : natDigits n with
      | nil => exact absurd hdigits Nat.toDigits_ne_nil
      | cons d digits =>
        rw [hdigits] at hspan hhead
        have hzero : d ≠ '0' := fun h => hhead (congrArg some h)
        rw [List.cons_append] at hspan ⊢
        rw [readWhole?.eq_2 _ fun _ h => hzero (List.cons.inj h).1, readDigits?, hspan]
  have hfraction : readFraction? rest = some ([], rest) := by
    cases rest with
    | nil => rfl
    | cons c rest => exact readFraction?.eq_2 _ fun _ h => (hrest c rfl).2.1 (List.cons.inj h).1
  have hpower : readPower? rest = some (0, rest) := by
    cases rest with
    | nil => rfl
    | cons c rest => exact if_neg (not_or.mpr (hrest c rfl).2.2)
  simp only [readUnsigned?, hwhole, hfraction, hpower, Option.bind_eq_bind, Option.bind_some,
    List.append_nil, digitsValue_natDigits]
  rfl

theorem exists_natDigits_cons (n : Nat) : ∃ d digits, natDigits n = d :: digits ∧ d.isDigit = true := by
  cases hdigits : natDigits n with
  | nil => exact absurd hdigits Nat.toDigits_ne_nil
  | cons d digits =>
    exact ⟨d, digits, rfl, isDigit_of_mem_natDigits (n := n) (hdigits ▸ List.mem_cons_self)⟩

theorem readNumber?_intDigits (n : Int) {rest : List Char} (hrest : EndsNumber rest) :
    readNumber? (intDigits n ++ rest) = some (.number n 0, rest) := by
  unfold intDigits
  split
  next hneg =>
    have hvalue : (-(n.natAbs : Int)) = n := by omega
    simp only [List.cons_append, readNumber?, readUnsigned?_natDigits _ hrest, hvalue,
      Option.bind_eq_bind, Option.bind_some]
    rfl
  next hpos =>
    have hvalue : (n.natAbs : Int) = n := by omega
    obtain ⟨d, digits, hdigits, hd⟩ := exists_natDigits_cons n.natAbs
    have hread := readUnsigned?_natDigits n.natAbs hrest
    rw [hdigits, List.cons_append] at hread ⊢
    have hsign : d ≠ '-' := fun h => absurd (h ▸ hd) (by decide)
    rw [readNumber?.eq_2 _ fun _ h => hsign (List.cons.inj h).1, hread]
    simp only [hvalue, Option.bind_eq_bind, Option.bind_some]
    rfl

/-- The text of a value starts neither with a blank nor with the end of an array. -/
def StartsValue (text : List Char) : Prop :=
  ∃ c rest, text = c :: rest ∧ isBlank c = false ∧ c ≠ ']'

theorem StartsValue.append {text : List Char} (h : StartsValue text) (rest : List Char) :
    StartsValue (text ++ rest) := by
  obtain ⟨c, tail, rfl, hblank, hbracket⟩ := h
  exact ⟨c, tail ++ rest, rfl, hblank, hbracket⟩

theorem exists_intDigits_cons (n : Int) :
    ∃ c rest, intDigits n = c :: rest ∧ (c = '-' ∨ c.isDigit = true) := by
  unfold intDigits
  split
  · exact ⟨'-', _, rfl, Or.inl rfl⟩
  · obtain ⟨d, digits, hdigits, hd⟩ := exists_natDigits_cons n.natAbs
    exact ⟨d, digits, hdigits, Or.inr hd⟩

theorem startsValue_intDigits (n : Int) : StartsValue (intDigits n) := by
  obtain ⟨c, rest, hdigits, hc⟩ := exists_intDigits_cons n
  refine ⟨c, rest, hdigits, ?_⟩
  rcases hc with rfl | hc
  · exact ⟨by decide, by decide⟩
  · simp only [isBlank, Bool.or_eq_false_iff, decide_eq_false_iff_not]
    refine ⟨⟨⟨⟨?_, ?_⟩, ?_⟩, ?_⟩, ?_⟩ <;> exact fun h => absurd (h ▸ hc) (by decide)

theorem skipBlanks_of_startsValue {text : List Char} (h : StartsValue text) :
    skipBlanks text = text := by
  obtain ⟨c, rest, rfl, hblank, -⟩ := h
  exact List.dropWhile_cons_of_neg (by simp [hblank])

theorem readValue?_blank (fuel : Nat) (text : List Char) :
    readValue? fuel (' ' :: text) = readValue? fuel text := by
  have hskip : skipBlanks (' ' :: text) = skipBlanks text := rfl
  cases fuel with
  | zero => rw [readValue?, readValue?]
  | succ fuel => rw [readValue?, readValue?, hskip]

theorem readItems?_blank (fuel : Nat) (text : List Char) :
    readItems? fuel (' ' :: text) = readItems? fuel text := by
  cases fuel with
  | zero => rw [readItems?, readItems?]
  | succ fuel => rw [readItems?, readItems?, readValue?_blank]

theorem readFields?_blank (fuel : Nat) (text : List Char) :
    readFields? fuel (' ' :: text) = readFields? fuel text := by
  have hskip : skipBlanks (' ' :: text) = skipBlanks text := rfl
  cases fuel with
  | zero => rw [readFields?, readFields?]
  | succ fuel => rw [readFields?, readFields?, readField?, readField?, hskip]

theorem readValue?_jsonString (fuel : Nat) (text rest : List Char) :
    readValue? (fuel + 1) (jsonString text ++ rest) = some (.string (String.ofList text), rest) := by
  have hskip : ∀ tail, skipBlanks ('"' :: tail) = '"' :: tail := fun _ => rfl
  simp only [jsonString, List.cons_append, List.append_assoc, List.nil_append, readValue?, hskip,
    ↓reduceIte, readString?_text]
  rfl

theorem readValue?_intDigits (fuel : Nat) (n : Int) {rest : List Char} (hrest : EndsNumber rest) :
    readValue? (fuel + 1) (intDigits n ++ rest) = some (.number n 0, rest) := by
  have hskip := skipBlanks_of_startsValue ((startsValue_intDigits n).append rest)
  have hread := readNumber?_intDigits n hrest
  obtain ⟨c, tail, htext, hc⟩ := exists_intDigits_cons n
  rw [htext, List.cons_append] at hskip hread ⊢
  have hother : ∀ other : Char, other ≠ '-' → other.isDigit = false → c ≠ other := by
    rintro other hminus hdigit rfl
    rcases hc with hc | hc
    · exact hminus hc
    · exact absurd hc (by simp [hdigit])
  rw [readValue?, hskip]
  simp only [hother '"' (by decide) (by decide), hother '[' (by decide) (by decide),
    hother '\x7b' (by decide) (by decide), hother 'n' (by decide) (by decide),
    hother 't' (by decide) (by decide), hother 'f' (by decide) (by decide), ↓reduceIte, hread]

end Json

namespace Value

mutual

/-- No float is anywhere in the value. -/
def floatFree : Value → Bool
  | .float _ => false
  | .list items | .tuple items => floatFreeItems items
  | .object fields => floatFreeFields fields
  | _ => true

def floatFreeItems : List Value → Bool
  | [] => true
  | value :: rest => value.floatFree && floatFreeItems rest

def floatFreeFields : List (String × Value) → Bool
  | [] => true
  | (_, value) :: rest => value.floatFree && floatFreeFields rest

end

mutual

/-- What the JSON text of a value without floats says. What JSON does not know is a string, its
plain text. -/
def content : Value → Json
  | .bool b => .bool b
  | .int n => .number n 0
  | .text s => .string s
  | .list items | .tuple items => .array (contentItems items)
  | .object fields => .object (contentFields fields)
  | .marker => .string (String.ofList (plain .marker))
  | .role r => .string (String.ofList (plain (.role r)))
  | .execution e => .string (String.ofList (plain (.execution e)))
  | .null | .float _ => .null

def contentItems : List Value → List Json
  | [] => []
  | value :: rest => value.content :: contentItems rest

def contentFields : List (String × Value) → List (String × Json)
  | [] => []
  | (key, value) :: rest => (key, value.content) :: contentFields rest

end

end Value

namespace Json

theorem startsValue_json {value : Value} (h : value.floatFree = true) : StartsValue value.json := by
  have hstring : ∀ text, StartsValue (jsonString text) :=
    fun _ => ⟨'"', _, rfl, by decide, by decide⟩
  have harray : ∀ items, StartsValue (jsonArray items) :=
    fun _ => ⟨'[', _, rfl, by decide, by decide⟩
  cases value with
  | null => exact ⟨'n', _, rfl, by decide, by decide⟩
  | bool b => cases b <;> exact ⟨_, _, rfl, by decide, by decide⟩
  | int n => exact startsValue_intDigits n
  | float x => exact absurd h (by simp [Value.floatFree])
  | text s => exact hstring _
  | list items => exact harray _
  | tuple items => exact harray _
  | object fields => exact ⟨'\x7b', _, rfl, by decide, by decide⟩
  | marker => exact hstring _
  | role r => exact hstring _
  | execution e => exact hstring _

theorem startsValue_jsonItems {value : Value} (h : value.floatFree = true) (rest : List Value) :
    StartsValue (commaJoin (Value.jsonItems (value :: rest))) := by
  cases rest with
  | nil => exact startsValue_json h
  | cons next rest => exact ((startsValue_json h).append separator).append _

theorem readValue?_array {fuel : Nat} {text rest : List Char} {items : List Json}
    (hstart : StartsValue text) (hread : readItems? fuel text = some (items, rest)) :
    readValue? (fuel + 1) ('[' :: text) = some (.array items, rest) := by
  have hskip : skipBlanks ('[' :: text) = '[' :: text := rfl
  have hquote : '[' ≠ '"' := by decide
  have htext := skipBlanks_of_startsValue hstart
  obtain ⟨c, tail, rfl, -, hbracket⟩ := hstart
  rw [readValue?, hskip]
  simp only [hquote, ↓reduceIte, htext]
  split
  next heq => exact absurd (List.cons.inj heq).1 hbracket
  next => rw [hread]; rfl

theorem readItems?_last {fuel : Nat} {text rest : List Char} {item : Json}
    (hread : readValue? fuel text = some (item, ']' :: rest)) :
    readItems? (fuel + 1) text = some ([item], rest) := by
  rw [readItems?, hread]
  rfl

theorem readItems?_cons {fuel : Nat} {text next rest : List Char} {item : Json} {items : List Json}
    (hread : readValue? fuel text = some (item, separator ++ next))
    (hnext : readItems? fuel next = some (items, rest)) :
    readItems? (fuel + 1) text = some (item :: items, rest) := by
  have hskip : skipBlanks (separator ++ next) = ',' :: ' ' :: next := rfl
  rw [readItems?, hread]
  simp only [Option.bind_eq_bind, Option.bind_some, hskip, readItems?_blank, hnext]
  rfl

theorem jsonField_append (key : String) (text rest : List Char) :
    jsonField key text ++ rest = jsonField key (text ++ rest) := by
  simp only [jsonField, List.append_assoc]

theorem length_le_jsonField (key : String) (text : List Char) :
    text.length ≤ (jsonField key text).length := by
  rw [jsonField, List.length_append]
  exact Nat.le_add_left _ _

theorem readField?_jsonField {fuel : Nat} {key : String} {text rest : List Char} {value : Json}
    (hread : readValue? fuel text = some (value, rest)) :
    readField? (readValue? fuel) (jsonField key text) = some ((key, value), rest) := by
  have hquote : ∀ tail, skipBlanks ('"' :: tail) = '"' :: tail := fun _ => rfl
  have hcolon : ∀ tail, skipBlanks (": ".toList ++ tail) = ':' :: ' ' :: tail := fun _ => rfl
  simp only [jsonField, jsonString, List.cons_append, List.append_assoc, List.nil_append,
    readField?, hquote, readString?_text, Option.bind_eq_bind, Option.bind_some, hcolon,
    readValue?_blank, hread, String.ofList_toList, Option.pure_def]

theorem readFields?_last {fuel : Nat} {key : String} {text rest : List Char} {value : Json}
    (hread : readValue? fuel text = some (value, '\x7d' :: rest)) :
    readFields? (fuel + 1) (jsonField key text) = some ([(key, value)], rest) := by
  rw [readFields?, readField?_jsonField hread]
  rfl

theorem readFields?_cons {fuel : Nat} {key : String} {text next rest : List Char} {value : Json}
    {fields : List (String × Json)} (hread : readValue? fuel text = some (value, separator ++ next))
    (hnext : readFields? fuel next = some (fields, rest)) :
    readFields? (fuel + 1) (jsonField key text) = some ((key, value) :: fields, rest) := by
  have hskip : skipBlanks (separator ++ next) = ',' :: ' ' :: next := rfl
  rw [readFields?, readField?_jsonField hread]
  simp only [Option.bind_eq_bind, Option.bind_some, hskip, readFields?_blank, hnext]
  rfl

theorem readValue?_object {fuel : Nat} {tail rest : List Char} {fields : List (String × Json)}
    (hread : readFields? fuel ('"' :: tail) = some (fields, rest)) :
    readValue? (fuel + 1) ('\x7b' :: '"' :: tail) = some (.object fields, rest) := by
  have hskip : ∀ text, skipBlanks ('\x7b' :: text) = '\x7b' :: text := fun _ => rfl
  have hquote : skipBlanks ('"' :: tail) = '"' :: tail := rfl
  rw [readValue?, hskip]
  simp only [hquote, Char.reduceEq, ↓reduceIte]
  split
  next heq => exact absurd (List.cons.inj heq).1 (by decide)
  next => rw [hread]; rfl

theorem endsNumber_cons {c : Char} (rest : List Char) (hdigit : c.isDigit = false) (hpoint : c ≠ '.')
    (hsmall : c ≠ 'e') (hlarge : c ≠ 'E') : EndsNumber (c :: rest) := by
  intro other ho
  obtain rfl : c = other := Option.some.inj ho
  exact ⟨hdigit, hpoint, hsmall, hlarge⟩

theorem endsNumber_separator (rest : List Char) : EndsNumber (separator ++ rest) :=
  endsNumber_cons _ (by decide) (by decide) (by decide) (by decide)

mutual

/-- The text of a value is read as what it says, up to the end of the value. -/
theorem readValue?_json : ∀ (value : Value) (fuel : Nat) (rest : List Char),
    value.floatFree = true → value.json.length ≤ fuel → EndsNumber rest →
    readValue? fuel (value.json ++ rest) = some (value.content, rest)
  | value, 0, rest, hfree, hfuel, _ => by
    obtain ⟨c, tail, heq, -⟩ := startsValue_json hfree
    simp [heq] at hfuel
  | .null, fuel + 1, rest, _, _, _ => rfl
  | .bool true, fuel + 1, rest, _, _, _ => rfl
  | .bool false, fuel + 1, rest, _, _, _ => rfl
  | .int n, fuel + 1, rest, _, _, hrest => readValue?_intDigits fuel n hrest
  | .float x, fuel + 1, rest, hfree, _, _ => absurd hfree (by simp [Value.floatFree])
  | .text s, fuel + 1, rest, _, _, _ => by
    have hread := readValue?_jsonString fuel s.toList rest
    rwa [String.ofList_toList] at hread
  | .list items, fuel + 1, rest, hfree, hfuel, _ =>
    readValue?_jsonArray items fuel rest hfree (Nat.le_of_succ_le_succ hfuel)
  | .tuple items, fuel + 1, rest, hfree, hfuel, _ =>
    readValue?_jsonArray items fuel rest hfree (Nat.le_of_succ_le_succ hfuel)
  | .object fields, fuel + 1, rest, hfree, hfuel, _ =>
    readValue?_jsonObject fields fuel rest hfree (Nat.le_of_succ_le_succ hfuel)
  | .marker, fuel + 1, rest, _, _, _ => readValue?_jsonString fuel _ rest
  | .role r, fuel + 1, rest, _, _, _ => readValue?_jsonString fuel _ rest
  | .execution e, fuel + 1, rest, _, _, _ => readValue?_jsonString fuel _ rest

theorem readValue?_jsonArray : ∀ (items : List Value) (fuel : Nat) (rest : List Char),
    Value.floatFreeItems items = true →
    (commaJoin (Value.jsonItems items) ++ [']']).length ≤ fuel →
    readValue? (fuel + 1) (jsonArray (Value.jsonItems items) ++ rest) =
      some (.array (Value.contentItems items), rest)
  | [], _, _, _, _ => rfl
  | value :: items, fuel, rest, hfree, hfuel => by
    rw [List.length_append] at hfuel
    have hread := readItems?_json (value :: items) fuel rest (List.cons_ne_nil _ _) hfree hfuel
    have hvalue : value.floatFree = true := (Bool.and_eq_true_iff.mp hfree).1
    have htext : jsonArray (Value.jsonItems (value :: items)) ++ rest =
        '[' :: (commaJoin (Value.jsonItems (value :: items)) ++ ']' :: rest) := by
      simp [jsonArray]
    rw [htext]
    exact readValue?_array ((startsValue_jsonItems hvalue items).append _) hread

theorem readValue?_jsonObject : ∀ (fields : List (String × Value)) (fuel : Nat) (rest : List Char),
    Value.floatFreeFields fields = true →
    (commaJoin (Value.jsonFields fields) ++ ['\x7d']).length ≤ fuel →
    readValue? (fuel + 1) (jsonObject (Value.jsonFields fields) ++ rest) =
      some (.object (Value.contentFields fields), rest)
  | [], _, _, _, _ => rfl
  | (key, value) :: fields, fuel, rest, hfree, hfuel => by
    rw [List.length_append] at hfuel
    have hread := readFields?_json ((key, value) :: fields) fuel rest (List.cons_ne_nil _ _) hfree
      hfuel
    have hquote : ∃ tail, commaJoin (Value.jsonFields ((key, value) :: fields)) = '"' :: tail := by
      cases fields <;> exact ⟨_, rfl⟩
    obtain ⟨tail, htail⟩ := hquote
    rw [htail] at hread
    have htext : jsonObject (Value.jsonFields ((key, value) :: fields)) ++ rest =
        '\x7b' :: '"' :: (tail ++ '\x7d' :: rest) := by
      simp [jsonObject, htail]
    rw [htext]
    exact readValue?_object hread

theorem readItems?_json : ∀ (items : List Value) (fuel : Nat) (rest : List Char),
    items ≠ [] → Value.floatFreeItems items = true →
    (commaJoin (Value.jsonItems items)).length < fuel →
    readItems? fuel (commaJoin (Value.jsonItems items) ++ ']' :: rest) =
      some (Value.contentItems items, rest)
  | [], _, _, hne, _, _ => absurd rfl hne
  | _, 0, _, _, _, hfuel => absurd hfuel (Nat.not_lt_zero _)
  | [value], fuel + 1, rest, _, hfree, hfuel =>
    readItems?_last (readValue?_json value fuel (']' :: rest) (Bool.and_eq_true_iff.mp hfree).1
      (Nat.le_of_lt_succ hfuel)
      (endsNumber_cons rest (by decide) (by decide) (by decide) (by decide)))
  | value :: next :: items, fuel + 1, rest, _, hfree, hfuel => by
    obtain ⟨hvalue, hnext⟩ := Bool.and_eq_true_iff.mp hfree
    have hjoin : commaJoin (Value.jsonItems (value :: next :: items)) =
        value.json ++ (separator ++ commaJoin (Value.jsonItems (next :: items))) :=
      List.append_assoc _ _ _
    have hlength := congrArg List.length hjoin
    have hseparator : separator.length = 2 := rfl
    rw [List.length_append, List.length_append] at hlength
    rw [hjoin, List.append_assoc, List.append_assoc]
    exact readItems?_cons
      (readValue?_json value fuel _ hvalue (by omega) (endsNumber_separator _))
      (readItems?_json (next :: items) fuel rest (List.cons_ne_nil _ _) hnext (by omega))

theorem readFields?_json : ∀ (fields : List (String × Value)) (fuel : Nat) (rest : List Char),
    fields ≠ [] → Value.floatFreeFields fields = true →
    (commaJoin (Value.jsonFields fields)).length < fuel →
    readFields? fuel (commaJoin (Value.jsonFields fields) ++ '\x7d' :: rest) =
      some (Value.contentFields fields, rest)
  | [], _, _, hne, _, _ => absurd rfl hne
  | _, 0, _, _, _, hfuel => absurd hfuel (Nat.not_lt_zero _)
  | [(key, value)], fuel + 1, rest, _, hfree, hfuel => by
    have hfield := length_le_jsonField key value.json
    have hjoin : commaJoin (Value.jsonFields [(key, value)]) = jsonField key value.json := rfl
    rw [hjoin] at hfuel ⊢
    rw [jsonField_append]
    exact readFields?_last (readValue?_json value fuel _ (Bool.and_eq_true_iff.mp hfree).1
      (by omega) (endsNumber_cons rest (by decide) (by decide) (by decide) (by decide)))
  | (key, value) :: next :: fields, fuel + 1, rest, _, hfree, hfuel => by
    obtain ⟨hvalue, hnext⟩ := Bool.and_eq_true_iff.mp hfree
    have hjoin : commaJoin (Value.jsonFields ((key, value) :: next :: fields)) =
        jsonField key value.json ++ (separator ++ commaJoin (Value.jsonFields (next :: fields))) :=
      List.append_assoc _ _ _
    have hfield := length_le_jsonField key value.json
    have hlength := congrArg List.length hjoin
    have hseparator : separator.length = 2 := rfl
    rw [List.length_append, List.length_append] at hlength
    rw [hjoin, List.append_assoc, List.append_assoc, jsonField_append]
    exact readFields?_cons
      (readValue?_json value fuel _ hvalue (by omega) (endsNumber_separator _))
      (readFields?_json (next :: fields) fuel rest (List.cons_ne_nil _ _) hnext (by omega))

end

/-- The line feed after a text is a blank. -/
theorem decode?_json {value : Value} (hfree : value.floatFree = true) :
    decode? (value.json ++ ['\n']) = some value.content := by
  have hskip : skipBlanks ['\n'] = [] := rfl
  have hread := readValue?_json value (value.json ++ ['\n']).length ['\n'] hfree
    (by simp) (endsNumber_cons [] (by decide) (by decide) (by decide) (by decide))
  rw [decode?, hread]
  simp only [Option.bind_eq_bind, Option.bind_some, hskip, ↓reduceIte]

end Json

theorem intDigits_natCast (n : Nat) : intDigits n = natDigits n := by
  rw [intDigits, if_neg (by omega), Int.natAbs_natCast]

namespace Value

theorem contentFields_eq_map (fields : List (String × Value)) :
    contentFields fields = fields.map fun field => (field.1, field.2.content) := by
  induction fields with
  | nil => rfl
  | cons field rest ih => rw [List.map_cons, ← ih]; rfl

theorem floatFreeFields_eq_true {fields : List (String × Value)}
    (h : ∀ field ∈ fields, field.2.floatFree = true) : floatFreeFields fields = true := by
  induction fields with
  | nil => rfl
  | cons field rest ih =>
    obtain ⟨hfield, hrest⟩ := List.forall_mem_cons.mp h
    exact Bool.and_eq_true_iff.mpr ⟨hfield, ih hrest⟩

end Value

namespace LogRecord

/-- The object that the JSON line of a record writes. -/
def summary (record : LogRecord) (time : CivilTime) : Value :=
  .object [("timestamp", .text (String.ofList time.toMicroText)),
    ("timestamp_ns", .int record.nanoseconds),
    ("severity_text", (record.severityText.map Value.text).getD .null),
    ("severity_number", (record.severity.map fun s => Value.int s.number).getD .null),
    ("body", record.body),
    ("attributes", .object record.attributes.pairs)]

theorem jsonLine_of_civilTime {record : LogRecord} {time : CivilTime}
    (h : record.civilTime = .ok time) :
    record.jsonLine = .ok ((record.summary time).json ++ ['\n']) := by
  have htext : jsonOption (record.severityText.map fun s => jsonString s.toList) =
      Value.json ((record.severityText.map Value.text).getD .null) := by
    cases record.severityText <;> rfl
  have hnumber : jsonOption (record.severity.map fun s => natDigits s.number) =
      Value.json ((record.severity.map fun s => Value.int s.number).getD .null) := by
    cases record.severity with
    | none => rfl
    | some s => exact (intDigits_natCast s.number).symm
  have htime : jsonString time.toMicroText = Value.json (.text (String.ofList time.toMicroText)) := by
    rw [Value.json, String.toList_ofList]
  rw [jsonLine, h, htext, hnumber]
  show Except.ok (jsonObject (jsonField "timestamp" (jsonString time.toMicroText) :: _) ++ _) = _
  rw [htime]
  rfl

theorem floatFree_summary {record : LogRecord} (time : CivilTime)
    (hbody : record.body.floatFree = true)
    (hattributes : ∀ pair ∈ record.attributes.pairs, pair.2.floatFree = true) :
    (record.summary time).floatFree = true := by
  have htext : ((record.severityText.map Value.text).getD .null).floatFree = true := by
    cases record.severityText <;> rfl
  have hnumber :
      ((record.severity.map fun s => Value.int s.number).getD .null).floatFree = true := by
    cases record.severity <;> rfl
  have hobject := Value.floatFreeFields_eq_true hattributes
  simp [summary, Value.floatFree, Value.floatFreeFields, htext, hnumber, hbody, hobject]

/-- Read as JSON, the line of a record says what the record holds. The line is visible ASCII up to its
line feed. -/
theorem decode?_jsonLine (record : LogRecord) (time : CivilTime)
    (htime : record.civilTime = .ok time) (hbody : record.body.floatFree = true)
    (hattributes : ∀ pair ∈ record.attributes.pairs, pair.2.floatFree = true) :
    ∃ text, record.jsonLine = .ok (text ++ ['\n']) ∧ (∀ c ∈ text, ' ' ≤ c ∧ c ≤ '~') ∧
      Json.decode? (text ++ ['\n']) = some (.object [
        ("timestamp", .string (String.ofList time.toMicroText)),
        ("timestamp_ns", .number (record.timestamp.getD 0) 0),
        ("severity_text", (record.severityText.map Json.string).getD .null),
        ("severity_number", (record.severity.map fun s => Json.number s.number 0).getD .null),
        ("body", record.body.content),
        ("attributes", .object (record.attributes.pairs.map fun pair =>
          (pair.1, pair.2.content)))]) := by
  refine ⟨(record.summary time).json, jsonLine_of_civilTime htime, ?_, ?_⟩
  · intro c hc
    have hvisible := (record.summary time).visible_json c hc
    simpa [isVisible] using hvisible
  · have htext : ((record.severityText.map Value.text).getD .null).content =
        (record.severityText.map Json.string).getD .null := by
      cases record.severityText <;> rfl
    have hnumber : ((record.severity.map fun s => Value.int s.number).getD .null).content =
        (record.severity.map fun s => Json.number s.number 0).getD .null := by
      cases record.severity <;> rfl
    rw [Json.decode?_json (floatFree_summary time hbody hattributes), ← htext, ← hnumber,
      ← Value.contentFields_eq_map]
    rfl

/-- Text beyond the first plane, control characters, an integer beyond 64 bits and what JSON does not
know, inside lists and objects. -/
def nestedRecord : LogRecord where
  timestamp := some 1000
  severity := some (.first .info)
  body := .object [("😀\x7f", .list [.text "a\"\\\n\x00", .tuple [], .int (-1180591620717411303424)])]
  attributes := .ofPairs [("mark", .marker), ("flags", .list [.bool true, .null, .object []])]

theorem civilTime_nestedRecord : nestedRecord.civilTime = .ok ⟨1970, 1, 1, 0, 0, 0, 1⟩ := by
  have h : nestedRecord.civilTime.toOption = some ⟨1970, 1, 1, 0, 0, 0, 1⟩ := by decide +kernel
  cases htime : nestedRecord.civilTime with
  | ok time =>
    rw [htime] at h
    exact congrArg Except.ok (Option.some.inj h)
  | error e =>
    rw [htime] at h
    cases h

theorem decode?_jsonLine_nested :
    ∃ text, nestedRecord.jsonLine = .ok (text ++ ['\n']) ∧ (∀ c ∈ text, ' ' ≤ c ∧ c ≤ '~') ∧
      Json.decode? (text ++ ['\n']) = some (.object [
        ("timestamp", .string "1970-01-01T00:00:00.000001+00:00"),
        ("timestamp_ns", .number 1000 0),
        ("severity_text", .null),
        ("severity_number", .number 9 0),
        ("body", .object [("😀\x7f", .array [.string "a\"\\\n\x00", .array [],
          .number (-1180591620717411303424) 0])]),
        ("attributes", .object [("mark", .string "_Marker.EXPLICIT_NULL"),
          ("flags", .array [.bool true, .null, .object []])])]) :=
  decode?_jsonLine nestedRecord ⟨1970, 1, 1, 0, 0, 0, 1⟩ civilTime_nestedRecord rfl
    (by decide +kernel)

end LogRecord

end LogContext
