import LogContext.Proofs.JsonDerivations

namespace LogContext

namespace Json

mutual

/-- The characters of a text that stand outside of its strings. -/
def outside : List Char → List Char
  | [] => []
  | c :: rest => if c = '"' then outsideAfter rest else c :: outside rest

/-- The same for what follows the opening quote of a string. -/
def outsideAfter : List Char → List Char
  | [] => []
  | '\\' :: _ :: rest => outsideAfter rest
  | c :: rest => if c = '"' then outside rest else outsideAfter rest

end

/-- The text has as many opening as closing quotes, and `shown` stands outside of its strings. -/
def Shows (text shown : List Char) : Prop := ∀ rest, outside (text ++ rest) = shown ++ outside rest

theorem shows_nil : Shows [] [] := fun _ => rfl

theorem Shows.append {text other shown more : List Char} (h : Shows text shown)
    (hother : Shows other more) : Shows (text ++ other) (shown ++ more) := by
  intro rest
  rw [List.append_assoc, h, hother, List.append_assoc]

theorem Shows.cons {c : Char} {text shown : List Char} (hc : c ≠ '"') (h : Shows text shown) :
    Shows (c :: text) (c :: shown) := by
  intro rest
  rw [List.cons_append, outside, if_neg hc, h, List.cons_append]

theorem Shows.unique {text shown other : List Char} (h : Shows text shown)
    (hother : Shows text other) : shown = other := by
  have heq := (h []).symm.trans (hother [])
  rwa [outside, List.append_nil, List.append_nil] at heq

theorem shows_of_not_mem {text : List Char} (h : '"' ∉ text) : Shows text text := by
  induction text with
  | nil => exact shows_nil
  | cons c text ih =>
    obtain ⟨hc, htext⟩ := not_or.mp (mt List.mem_cons.mpr h)
    exact (ih htext).cons (Ne.symm hc)

theorem outsideAfter_cons {c : Char} (hquote : c ≠ '"') (hbackslash : c ≠ '\\')
    (rest : List Char) : outsideAfter (c :: rest) = outsideAfter rest := by
  rw [outsideAfter.eq_3 c rest fun _ _ h => absurd h hbackslash, if_neg hquote]

theorem outsideAfter_append {text : List Char} (h : ∀ c ∈ text, c ≠ '"' ∧ c ≠ '\\')
    (rest : List Char) : outsideAfter (text ++ rest) = outsideAfter rest := by
  induction text with
  | nil => rfl
  | cons c text ih =>
    obtain ⟨⟨hquote, hbackslash⟩, htext⟩ := List.forall_mem_cons.mp h
    rw [List.cons_append, outsideAfter_cons hquote hbackslash, ih htext]

/-- A string does not end within one of its characters. -/
theorem IsCharacter.outsideAfter_append {text : List Char} (h : IsCharacter text)
    (rest : List Char) : outsideAfter (text ++ rest) = outsideAfter rest := by
  cases h with
  | plain hcontrol hquote hbackslash => exact outsideAfter_cons hquote hbackslash rest
  | letter hletter => rfl
  | @unit digits hlength hdigits =>
    have hplain : ∀ c ∈ digits, c ≠ '"' ∧ c ≠ '\\' := by
      refine fun c hc => ⟨?_, ?_⟩ <;> rintro rfl <;> exact absurd (hdigits _ hc) (by decide)
    exact Json.outsideAfter_append hplain rest

theorem IsString.shows {text : List Char} (h : IsString text) : Shows text [] := by
  cases h with
  | @of characters hcharacters =>
    have hinside : ∀ rest, outsideAfter (characters.flatten ++ rest) = outsideAfter rest := by
      intro rest
      induction characters with
      | nil => rfl
      | cons c characters ih =>
        obtain ⟨hc, hcharacters⟩ := List.forall_mem_cons.mp hcharacters
        rw [List.flatten_cons, List.append_assoc, hc.outsideAfter_append, ih hcharacters]
    intro rest
    rw [List.cons_append, List.append_assoc]
    exact hinside ('"' :: rest)

/-- No word for a number that is none starts here. -/
def Plain (shown : List Char) : Prop := ∀ c ∈ shown, c ∉ ['N', 'I']

instance (shown : List Char) : Decidable (Plain shown) :=
  List.decidableBAll (fun c => c ∉ ['N', 'I']) shown

theorem plain_append {shown more : List Char} : Plain (shown ++ more) ↔ Plain shown ∧ Plain more :=
  List.forall_mem_append

/-- The text has no such word outside of its strings. -/
def Clear (text : List Char) : Prop := ∃ shown, Shows text shown ∧ Plain shown

theorem Clear.append {text other : List Char} (h : Clear text) (hother : Clear other) :
    Clear (text ++ other) := by
  obtain ⟨shown, hshown, hplain⟩ := h
  obtain ⟨more, hmore, hplain'⟩ := hother
  exact ⟨shown ++ more, hshown.append hmore, plain_append.mpr ⟨hplain, hplain'⟩⟩

theorem clear_of_not_mem {text : List Char} (h : '"' ∉ text ∧ 'N' ∉ text ∧ 'I' ∉ text) :
    Clear text := by
  obtain ⟨hquote, hnan, hinfinity⟩ := h
  refine ⟨text, shows_of_not_mem hquote, fun c hc hm => ?_⟩
  simp only [List.mem_cons, List.not_mem_nil, or_false] at hm
  rcases hm with rfl | rfl
  · exact hnan hc
  · exact hinfinity hc

theorem Clear.cons {c : Char} {text : List Char} (hc : c ∉ ['"', 'N', 'I']) (h : Clear text) :
    Clear (c :: text) := by
  have hclear : Clear [c] := clear_of_not_mem (by simpa [eq_comm] using hc)
  exact hclear.append h

theorem IsBlank.clear {text : List Char} (h : IsBlank text) : Clear text :=
  clear_of_not_mem ⟨fun hc => absurd (h _ hc) (by decide), fun hc => absurd (h _ hc) (by decide),
    fun hc => absurd (h _ hc) (by decide)⟩

theorem IsDigits.clear {text : List Char} (h : IsDigits text) : Clear text := by
  cases h with
  | @of first rest hfirst hrest =>
    have hdigits : ∀ c ∈ first :: rest, c.isDigit = true := List.forall_mem_cons.mpr ⟨hfirst, hrest⟩
    exact clear_of_not_mem ⟨fun hc => absurd (hdigits _ hc) (by decide),
      fun hc => absurd (hdigits _ hc) (by decide), fun hc => absurd (hdigits _ hc) (by decide)⟩

theorem IsWhole.clear {text : List Char} (h : IsWhole text) : Clear text := by
  cases h with
  | zero => exact clear_of_not_mem (by decide)
  | digits hdigits hzero => exact hdigits.clear

theorem IsFraction.clear {text : List Char} (h : IsFraction text) : Clear text := by
  cases h with
  | absent => exact clear_of_not_mem (by decide)
  | digits hdigits => exact hdigits.clear.cons (by decide)

theorem IsPower.clear {text : List Char} (h : IsPower text) : Clear text := by
  cases h with
  | absent => exact clear_of_not_mem (by decide)
  | plain hmark hdigits =>
    refine hdigits.clear.cons ?_
    rcases hmark with rfl | rfl <;> decide
  | signed hmark hsign hdigits =>
    refine (hdigits.clear.cons ?_).cons ?_
    · rcases hsign with rfl | rfl <;> decide
    · rcases hmark with rfl | rfl <;> decide

theorem IsUnsigned.clear {text : List Char} (h : IsUnsigned text) : Clear text := by
  cases h with
  | of hwhole hfraction hpower => exact hwhole.clear.append (hfraction.clear.append hpower.clear)

theorem IsNumber.clear {text : List Char} (h : IsNumber text) : Clear text := by
  cases h with
  | plain hunsigned => exact hunsigned.clear
  | negative hunsigned => exact hunsigned.clear.cons (by decide)

theorem IsString.clear {text : List Char} (h : IsString text) : Clear text :=
  ⟨[], h.shows, List.forall_mem_nil _⟩

theorem Bracket.clear_opening (b : Bracket) : b.opening ∉ ['"', 'N', 'I'] := by
  cases b <;> decide

theorem Bracket.clear_closing (b : Bracket) : Clear [b.closing] := by
  cases b <;> exact clear_of_not_mem (by decide)

theorem Derives.clear {symbol : Symbol} {text : List Char} (h : Derives symbol text) :
    Clear text := by
  induction h with
  | word hword =>
    have hwords : ∀ text ∈ words, '"' ∉ text ∧ 'N' ∉ text ∧ 'I' ∉ text := by decide
    exact clear_of_not_mem (hwords _ hword)
  | number hnumber => exact hnumber.clear
  | string hstring => exact hstring.clear
  | @empty b _ hblanks => exact (hblanks.clear.append b.clear_closing).cons b.clear_opening
  | @filled b _ _ ih => exact (ih.append b.clear_closing).cons b.clear_opening
  | text hbefore _ hafter ih => exact hbefore.clear.append (ih.append hafter.clear)
  | item _ ih => exact ih
  | field hbefore hkey hbetween _ ih =>
    exact hbefore.clear.append (hkey.clear.append (hbetween.clear.append (ih.cons (by decide))))
  | last _ ih => exact ih
  | more _ _ ih ihrest => exact ih.append (ihrest.cons (by decide))

theorem shows_separator : Shows separator separator := shows_of_not_mem (by decide)

theorem shows_jsonField (key : String) {text shown : List Char} (h : Shows text shown) :
    Shows (jsonField key text) (": ".toList ++ shown) :=
  ((isString_jsonString key.toList).shows.append (shows_of_not_mem (by decide))).append h

theorem shows_bracket (b : Bracket) {text shown : List Char} (h : Shows text shown) :
    Shows (b.opening :: (text ++ [b.closing])) (b.opening :: (shown ++ [b.closing])) := by
  have hopening : b.opening ≠ '"' := by cases b <;> decide
  have hclosing : b.closing ≠ '"' := by cases b <;> decide
  exact (h.append (shows_nil.cons hclosing)).cons hopening

theorem plain_bracket (b : Bracket) {shown : List Char}
    (h : Plain (b.opening :: (shown ++ [b.closing]))) : Plain shown :=
  (plain_append.mp (List.forall_mem_cons.mp h).2).1

mutual

/-- Outside of its strings the text of a value shows whether all its floats are finite. -/
theorem shows_json : ∀ value : Value,
    ∃ shown, Shows value.json shown ∧ (Plain shown → value.floatsFinite = true)
  | .float .nan => ⟨_, shows_of_not_mem (by decide), by decide⟩
  | .float (.infinite true) => ⟨_, shows_of_not_mem (by decide), by decide⟩
  | .float (.infinite false) => ⟨_, shows_of_not_mem (by decide), by decide⟩
  | .list items => by
    obtain ⟨shown, hshown, hfinite⟩ := shows_jsonItems items
    exact ⟨_, shows_bracket .array hshown, fun h => hfinite (plain_bracket .array h)⟩
  | .tuple items => by
    obtain ⟨shown, hshown, hfinite⟩ := shows_jsonItems items
    exact ⟨_, shows_bracket .array hshown, fun h => hfinite (plain_bracket .array h)⟩
  | .object fields => by
    obtain ⟨shown, hshown, hfinite⟩ := shows_jsonFields fields
    exact ⟨_, shows_bracket .object hshown, fun h => hfinite (plain_bracket .object h)⟩
  | .float (.finite negative m) => by
    obtain ⟨shown, hshown, -⟩ := (Binary64.isNumber_text negative m).clear
    exact ⟨shown, hshown, fun _ => rfl⟩
  | .null => ⟨_, shows_of_not_mem (by decide), fun _ => rfl⟩
  | .bool true => ⟨_, shows_of_not_mem (by decide), fun _ => rfl⟩
  | .bool false => ⟨_, shows_of_not_mem (by decide), fun _ => rfl⟩
  | .int n => by
    obtain ⟨shown, hshown, -⟩ := (isNumber_intDigits n).clear
    exact ⟨shown, hshown, fun _ => rfl⟩
  | .text s => ⟨[], (isString_jsonString s.toList).shows, fun _ => rfl⟩
  | .marker => ⟨[], (isString_jsonString _).shows, fun _ => rfl⟩
  | .role _ => ⟨[], (isString_jsonString _).shows, fun _ => rfl⟩
  | .execution _ => ⟨[], (isString_jsonString _).shows, fun _ => rfl⟩

theorem shows_jsonItems : ∀ items : List Value,
    ∃ shown, Shows (commaJoin (Value.jsonItems items)) shown ∧
      (Plain shown → Value.itemsFinite items = true)
  | [] => ⟨[], shows_nil, fun _ => rfl⟩
  | [value] => by
    obtain ⟨shown, hshown, hfinite⟩ := shows_json value
    exact ⟨shown, hshown, fun h => Bool.and_eq_true_iff.mpr ⟨hfinite h, rfl⟩⟩
  | value :: next :: rest => by
    obtain ⟨shown, hshown, hfinite⟩ := shows_json value
    obtain ⟨more, hmore, hrest⟩ := shows_jsonItems (next :: rest)
    refine ⟨_, (hshown.append shows_separator).append hmore, fun h => ?_⟩
    obtain ⟨hvalue, hnext⟩ := plain_append.mp h
    exact Bool.and_eq_true_iff.mpr ⟨hfinite (plain_append.mp hvalue).1, hrest hnext⟩

theorem shows_jsonFields : ∀ fields : List (String × Value),
    ∃ shown, Shows (commaJoin (Value.jsonFields fields)) shown ∧
      (Plain shown → Value.fieldsFinite fields = true)
  | [] => ⟨[], shows_nil, fun _ => rfl⟩
  | [(key, value)] => by
    obtain ⟨shown, hshown, hfinite⟩ := shows_json value
    refine ⟨_, shows_jsonField key hshown, fun h => ?_⟩
    exact Bool.and_eq_true_iff.mpr ⟨hfinite (plain_append.mp h).2, rfl⟩
  | (key, value) :: next :: rest => by
    obtain ⟨shown, hshown, hfinite⟩ := shows_json value
    obtain ⟨more, hmore, hrest⟩ := shows_jsonFields (next :: rest)
    refine ⟨_, ((shows_jsonField key hshown).append shows_separator).append hmore, fun h => ?_⟩
    obtain ⟨hfield, hnext⟩ := plain_append.mp h
    have hvalue := (plain_append.mp (plain_append.mp hfield).1).2
    exact Bool.and_eq_true_iff.mpr ⟨hfinite hvalue, hrest hnext⟩

end

/-- The text of a value is a JSON text exactly if every float in the value is finite: the words for
other floats are none of the grammar. -/
theorem isText_json_iff (value : Value) : IsText value.json ↔ value.floatsFinite = true := by
  constructor
  · intro h
    obtain ⟨shown, hshown, hplain⟩ := h.clear
    obtain ⟨other, hother, hfinite⟩ := shows_json value
    exact hfinite (hother.unique hshown ▸ hplain)
  · exact fun h => isText_of_value (derives_json h)

end Json

theorem Value.fieldsFinite_iff {fields : List (String × Value)} :
    fieldsFinite fields = true ↔ ∀ field ∈ fields, field.2.floatsFinite = true := by
  induction fields with
  | nil => exact iff_of_true rfl (List.forall_mem_nil _)
  | cons field rest ih => rw [fieldsFinite, Bool.and_eq_true, ih, List.forall_mem_cons]

namespace LogRecord

theorem floatsFinite_summary {record : LogRecord} {time : CivilTime} :
    (record.summary time).floatsFinite = true ↔ record.body.floatsFinite = true ∧
      ∀ pair ∈ record.attributes.pairs, pair.2.floatsFinite = true := by
  have htext : ((record.severityText.map Value.text).getD .null).floatsFinite = true := by
    cases record.severityText <;> rfl
  have hnumber :
      ((record.severity.map fun s => Value.int s.number).getD .null).floatsFinite = true := by
    cases record.severity <;> rfl
  simp [summary, Value.floatsFinite, Value.fieldsFinite, htext, hnumber, Value.fieldsFinite_iff]

/-- The line of a record is a JSON text with a line feed after it exactly if no float that the record
holds, in its body or its attributes and at any depth, is infinite or no number. -/
theorem jsonLine_isText_iff (record : LogRecord) (time : CivilTime)
    (htime : record.civilTime = .ok time) :
    ∃ text, record.jsonLine = .ok (text ++ ['\n']) ∧
      (Json.IsText text ↔ record.body.floatsFinite = true ∧
        ∀ pair ∈ record.attributes.pairs, pair.2.floatsFinite = true) := by
  refine ⟨(record.summary time).json, jsonLine_of_civilTime htime, ?_⟩
  rw [Json.isText_json_iff, floatsFinite_summary]

/-- A float of every form that is written, and what JSON does not know, at several depths. -/
def floatsRecord : LogRecord where
  body := .object [("low", .list [.float (.ofDecimal false 25 (-8)), .tuple []]),
    ("high", .tuple [.float (.ofDecimal true 1 16), .float (.ofDecimal false 1 (-5))])]
  attributes := .ofPairs [("half", .float (.ofDecimal false 5 (-1))), ("mark", .marker)]

theorem jsonLine_isText_of_floats :
    (∃ text, floatsRecord.jsonLine = .ok (text ++ ['\n']) ∧ Json.IsText text) ∧
    ∃ text, { floatsRecord with body := .list [.float (.infinite true)] }.jsonLine =
      .ok (text ++ ['\n']) ∧ ¬Json.IsText text := by
  constructor
  · obtain ⟨text, hline, htext⟩ := jsonLine_isText_iff floatsRecord ⟨1970, 1, 1, 0, 0, 0, 0⟩
      (civilTime_of_untimed rfl)
    exact ⟨text, hline, htext.mpr (by decide +kernel)⟩
  · obtain ⟨text, hline, htext⟩ := jsonLine_isText_iff
      { floatsRecord with body := .list [.float (.infinite true)] } ⟨1970, 1, 1, 0, 0, 0, 0⟩
      (civilTime_of_untimed rfl)
    exact ⟨text, hline, fun h => absurd (htext.mp h).1 (by decide)⟩

def nanRecord : LogRecord where
  body := .float .nan

/-- The word for a float that is no number is none of the grammar. -/
theorem jsonLine_of_nan_is_no_text :
    ∃ text, nanRecord.jsonLine = .ok (text ++ ['\n']) ∧ ¬Json.IsText text := by
  have htime : nanRecord.civilTime = .ok ⟨1970, 1, 1, 0, 0, 0, 0⟩ := civilTime_of_untimed rfl
  refine ⟨_, jsonLine_of_civilTime htime, fun h => ?_⟩
  have hfinite := floatsFinite_summary.mp ((Json.isText_json_iff _).mp h)
  exact absurd hfinite.1 (by decide)

end LogRecord

end LogContext
