import LogContext.Proofs.WrittenText
import LogContext.RecordExport

namespace LogContext

theorem lineFeed_not_mem_quotedChar {mark : Char} (hmark : mark ≠ '\n') (c : Char) :
    '\n' ∉ quotedChar mark c := by
  unfold quotedChar
  split
  next hescaped =>
    have hc : c ≠ '\n' := by
      rcases hescaped with rfl | rfl
      · exact hmark
      · decide
    simpa using hc.symm
  next =>
    split
    next => decide
    next hc =>
      split
      next => decide
      next =>
        split
        next => decide
        next =>
          split
          next => simpa using Ne.symm hc
          next => exact (visible_codeEscape _).lineFeed_not_mem

/-- A quoted text is on one line. -/
theorem lineFeed_not_mem_quoted (text : List Char) : '\n' ∉ quoted text := by
  have hmark : quoteMark text ≠ '\n' := by
    unfold quoteMark
    split <;> decide
  simp only [quoted, List.mem_cons, List.mem_append, List.mem_flatMap, List.not_mem_nil, or_false,
    not_or, not_exists, not_and]
  exact ⟨hmark.symm, fun c _ => lineFeed_not_mem_quotedChar hmark c, hmark.symm⟩

theorem lineFeed_not_mem_commaJoin {texts : List (List Char)} (h : ∀ text ∈ texts, '\n' ∉ text) :
    '\n' ∉ commaJoin texts := by
  intro hm
  rcases mem_commaJoin hm with hm | ⟨text, ht, hm⟩
  · exact absurd hm (by decide)
  · exact h text ht hm

theorem lineFeed_not_mem_tupleText {texts : List (List Char)} (h : ∀ text ∈ texts, '\n' ∉ text) :
    '\n' ∉ tupleText texts := by
  unfold tupleText
  split
  next item => simp [h item]
  next => simp [lineFeed_not_mem_commaJoin h]

theorem lineFeed_not_mem_optionLiteral (value : Option String) : '\n' ∉ optionLiteral value := by
  cases value with
  | none => decide
  | some s => exact lineFeed_not_mem_quoted s.toList

theorem Role.lineFeed_not_mem_constant (role : Role) : '\n' ∉ role.constant := by
  cases role <;> decide +kernel

theorem Execution.lineFeed_not_mem_literal (e : Execution) : '\n' ∉ e.literal := by
  have hfields : ∀ text ∈ ExecutionField.all.map fun f =>
      f.name.toList ++ '=' :: optionLiteral (e.get f), '\n' ∉ text := by
    intro text ht
    obtain ⟨f, -, rfl⟩ := List.mem_map.mp ht
    have hname : '\n' ∉ f.name.toList := by cases f <;> decide
    simp [hname, lineFeed_not_mem_optionLiteral]
  have hliteral : e.literal = "ExecutionSnapshot(".toList ++ commaJoin (ExecutionField.all.map
      fun f => f.name.toList ++ '=' :: optionLiteral (e.get f)) ++ [')'] := rfl
  have hhead : '\n' ∉ "ExecutionSnapshot(".toList := by decide
  rw [hliteral, List.mem_append, List.mem_append, not_or, not_or]
  exact ⟨⟨hhead, lineFeed_not_mem_commaJoin hfields⟩, by decide⟩

namespace Value

mutual

/-- A literal is on one line, whatever the value holds inside. -/
theorem lineFeed_not_mem_literal : ∀ value : Value, '\n' ∉ value.literal
  | .null => by decide
  | .bool true => by decide
  | .bool false => by decide
  | .int n => (visible_intDigits n).lineFeed_not_mem
  | .float x => x.visible_text.lineFeed_not_mem
  | .text s => lineFeed_not_mem_quoted s.toList
  | .list items => by
    have hitems := lineFeed_not_mem_commaJoin (lineFeed_not_mem_literalItems items)
    have hliteral : literal (.list items) = '[' :: (commaJoin (literalItems items) ++ [']']) := rfl
    simp [hliteral, hitems]
  | .tuple items => lineFeed_not_mem_tupleText (lineFeed_not_mem_literalItems items)
  | .object fields => by
    have hfields := lineFeed_not_mem_commaJoin (lineFeed_not_mem_literalFields fields)
    have hliteral : literal (.object fields) =
      '\x7b' :: (commaJoin (literalFields fields) ++ ['\x7d']) := rfl
    simp [hliteral, hfields]
  | .marker => by decide
  | .role r => by
    have hliteral : literal (.role r) =
      '<' :: r.constant ++ ": ".toList ++ quoted r.name.toList ++ ['>'] := rfl
    simp [hliteral, r.lineFeed_not_mem_constant, lineFeed_not_mem_quoted]
  | .execution e => e.lineFeed_not_mem_literal

theorem lineFeed_not_mem_literalItems :
    ∀ items : List Value, ∀ text ∈ literalItems items, '\n' ∉ text
  | [] => fun _ h => nomatch h
  | value :: rest => List.forall_mem_cons.mpr
    ⟨lineFeed_not_mem_literal value, lineFeed_not_mem_literalItems rest⟩

theorem lineFeed_not_mem_literalFields :
    ∀ fields : List (String × Value), ∀ text ∈ literalFields fields, '\n' ∉ text
  | [] => fun _ h => nomatch h
  | (key, value) :: rest => by
    have hfield : '\n' ∉ quoted key.toList ++ ": ".toList ++ value.literal := by
      simp [lineFeed_not_mem_quoted, lineFeed_not_mem_literal value]
    exact List.forall_mem_cons.mpr ⟨hfield, lineFeed_not_mem_literalFields rest⟩

end

/-- What a line takes from a value as it is. -/
def looseText : Value → List Char
  | .text s => s.toList
  | _ => []

theorem count_plain (value : Value) : value.plain.count '\n' = value.looseText.count '\n' := by
  have hliteral : value.literal.count '\n' = 0 :=
    List.count_eq_zero.mpr value.lineFeed_not_mem_literal
  cases value with
  | text s => rfl
  | marker => decide
  | role r => exact List.count_eq_zero.mpr r.lineFeed_not_mem_constant
  | _ => exact hliteral

end Value

theorem count_commaJoin (texts : List (List Char)) :
    (commaJoin texts).count '\n' = texts.flatten.count '\n' := by
  induction texts with
  | nil => rfl
  | cons text rest ih =>
    cases rest with
    | nil => rw [List.flatten_singleton]; rfl
    | cons next rest =>
      have hseparator : separator.count '\n' = 0 := by decide
      have hflat : (text :: next :: rest).flatten = text ++ (next :: rest).flatten := rfl
      rw [commaJoin_cons_cons, hflat, List.count_append, List.count_append, List.count_append, hseparator, ih,
        Nat.add_zero]

namespace LogRecord

/-- The attributes that the braces of a line show, in any order. -/
def shownPairs (record : LogRecord) : List (String × Value) :=
  record.attributes.pairs.filter fun pair => !reservedKeys.contains pair.1

/-- What a text line takes over as it is: the severity, the source, and the keys and texts of the
braces. All else in it is written by literals and numbers. -/
def looseText (record : LogRecord) : List Char :=
  (record.severityText.getD "").toList ++
    ((record.attributes.find? sourceKey).map Value.looseText).getD [] ++
    record.shownPairs.flatMap fun pair => pair.1.toList ++ pair.2.looseText

variable (record : LogRecord)

theorem count_severityText : (record.severityText.getD "None").toList.count '\n' =
    (record.severityText.getD "").toList.count '\n' := by
  cases record.severityText with
  | none => decide
  | some s => rfl

theorem count_sourceText : record.sourceText.count '\n' =
    (((record.attributes.find? sourceKey).map Value.looseText).getD []).count '\n' := by
  unfold sourceText
  cases record.attributes.find? sourceKey with
  | none => decide
  | some value => exact value.count_plain

theorem contextPairs_perm : record.contextPairs.Perm record.shownPairs := List.mergeSort_perm _ _

/-- Sorting the attributes changes nothing about their characters. -/
theorem count_contextText : record.contextText.count '\n' =
    (record.shownPairs.flatMap fun pair => pair.1.toList ++ pair.2.looseText).count '\n' := by
  have hpair : ∀ pair : String × Value, (pair.1.toList ++ '=' :: pair.2.plain).count '\n' =
      (pair.1.toList ++ pair.2.looseText).count '\n' := by
    intro pair
    simp [pair.2.count_plain]
  rw [contextText, count_commaJoin, ← List.flatMap_def, List.count_flatMap]
  simp only [Function.comp_def, hpair]
  rw [← Function.comp_def, ← List.count_flatMap]
  exact (record.contextPairs_perm.flatMap_right _).count_eq _

theorem count_bracesText : record.bracesText.count '\n' = record.contextText.count '\n' := by
  unfold bracesText
  simp only
  split
  next h => rw [List.isEmpty_iff.mp h]
  next => simp

theorem count_textHead (time : CivilTime) :
    (record.textHead time).count '\n' = record.looseText.count '\n' := by
  have htime : time.toSecondText.count '\n' = 0 :=
    List.count_eq_zero.mpr time.visible_toSecondText.lineFeed_not_mem
  have hopen : " [".toList.count '\n' = 0 := by decide
  have hclose : "] ".toList.count '\n' = 0 := by decide
  have hcolon : "\t: ".toList.count '\n' = 0 := by decide
  simp only [textHead, looseText, List.count_append, htime, hopen, hclose, hcolon,
    count_severityText, count_sourceText, count_bracesText, count_contextText]
  omega

variable {record}

theorem textLine_of_civilTime {time : CivilTime} (h : record.civilTime = .ok time) :
    record.textLine = .ok (record.textHead time ++ record.body.literal ++ ['\n']) := by
  rw [textLine, h]
  rfl

theorem exists_civilTime_of_textLine {line : List Char} (h : record.textLine = .ok line) :
    ∃ time, record.civilTime = .ok time := by
  cases htime : record.civilTime with
  | ok time => exact ⟨time, rfl⟩
  | error e =>
    rw [textLine, htime] at h
    cases h

/-- A line ends with a line feed, and has one more for each that it takes over. -/
theorem textLine_eq {line : List Char} (h : record.textLine = .ok line) :
    ∃ text, line = text ++ ['\n'] ∧ text.count '\n' = record.looseText.count '\n' := by
  obtain ⟨time, htime⟩ := exists_civilTime_of_textLine h
  have hbody : record.body.literal.count '\n' = 0 :=
    List.count_eq_zero.mpr record.body.lineFeed_not_mem_literal
  rw [textLine_of_civilTime htime] at h
  obtain rfl := Except.ok.inj h
  refine ⟨record.textHead time ++ record.body.literal, rfl, ?_⟩
  rw [List.count_append, hbody, count_textHead, Nat.add_zero]

/-- The line feeds that the lines of some records take over. -/
def looseBreaks (records : List LogRecord) : Nat :=
  (records.flatMap looseText).count '\n'

theorem looseBreaks_cons (record : LogRecord) (rest : List LogRecord) :
    looseBreaks (record :: rest) = record.looseText.count '\n' + looseBreaks rest := by
  rw [looseBreaks, List.flatMap_cons, List.count_append, looseBreaks]

theorem looseBreaks_eq_zero_iff {records : List LogRecord} :
    looseBreaks records = 0 ↔ ∀ record ∈ records, '\n' ∉ record.looseText := by
  simp only [looseBreaks, List.count_eq_zero, List.mem_flatMap, not_exists, not_and]

theorem exportBatch_text {records : List LogRecord}
    (formatted : ∀ record ∈ records, ∃ line, record.textLine = .ok line) :
    ∃ text, exportBatch .text records = (true, text) ∧
      text.count '\n' = records.length + looseBreaks records := by
  induction records with
  | nil => exact ⟨[], rfl, rfl⟩
  | cons record rest ih =>
    obtain ⟨hrecord, hrest⟩ := List.forall_mem_cons.mp formatted
    obtain ⟨line, hline⟩ := hrecord
    obtain ⟨lines, hlines, hcount⟩ := ih hrest
    obtain ⟨text, rfl, htext⟩ := textLine_eq hline
    refine ⟨text ++ ['\n'] ++ lines, ?_, ?_⟩
    · rw [exportBatch_cons .text hline, hlines]
    · have hend : ['\n'].count '\n' = 1 := by decide
      rw [List.count_append, List.count_append, htext, hend, hcount, List.length_cons,
        looseBreaks_cons]
      omega

/-- The line of a record has one line feed, its last character, exactly if no text that the line takes
over has any; a value's literal never has. So a batch is written with as many lines as it has
records exactly if that holds of all its records. -/
theorem text_lines_break_with_loose_texts (records : List LogRecord)
    (formatted : ∀ record ∈ records, ∃ line, record.textLine = .ok line) :
    (∀ record ∈ records, ∃ text, record.textLine = .ok (text ++ ['\n']) ∧
      ('\n' ∉ text ↔ '\n' ∉ record.looseText)) ∧
    ∃ text, exportBatch .text records = (true, text) ∧
      (text.count '\n' = records.length ↔ ∀ record ∈ records, '\n' ∉ record.looseText) := by
  constructor
  · intro record hrecord
    obtain ⟨line, hline⟩ := formatted record hrecord
    obtain ⟨text, rfl, hcount⟩ := textLine_eq hline
    exact ⟨text, hline, by rw [← List.count_eq_zero, hcount, List.count_eq_zero]⟩
  · obtain ⟨text, htext, hcount⟩ := exportBatch_text formatted
    refine ⟨text, htext, ?_⟩
    rw [hcount, ← looseBreaks_eq_zero_iff]
    omega

theorem exists_line_of_isOk (record : LogRecord) (h : record.textLine.isOk = true) :
    ∃ line, record.textLine = .ok line := by
  cases hline : record.textLine with
  | ok line => exact ⟨line, rfl⟩
  | error e =>
    rw [hline] at h
    cases h

/-- Line feeds in a body and inside a list are escaped. -/
def escapedRecord : LogRecord where
  body := .text "first\nsecond"
  severityText := some "INFO"
  attributes := .ofPairs [("log.source", .text "Job"), ("items", .list [.text "a\nb"])]

theorem text_lines_break_with_loose_texts_escaped :
    (∃ line, escapedRecord.textLine = .ok line) ∧ '\n' ∉ escapedRecord.looseText ∧
    ∃ text, exportBatch .text [escapedRecord, escapedRecord] = (true, text) ∧
      text.count '\n' = 2 := by
  have hline : ∃ line, escapedRecord.textLine = .ok line :=
    exists_line_of_isOk escapedRecord (by decide +kernel)
  have hloose : '\n' ∉ escapedRecord.looseText := by decide +kernel
  obtain ⟨-, text, htext, hcount⟩ := text_lines_break_with_loose_texts
    [escapedRecord, escapedRecord] (by simp [hline])
  exact ⟨hline, hloose, text, htext, hcount.mpr (by simp [hloose])⟩

/-- An attribute that ends its line by itself and then goes on like another one. -/
def forgingRecord : LogRecord where
  body := .text "second"
  severityText := some "INFO"
  attributes := .ofPairs [("note", .text
    "x\x7d\t: 'first'\n1970-01-01T00:00:00Z [ERROR] Unknown \x7bnote=x")]

/-- One record is written like two: its line is broken by a text that it takes over. -/
theorem text_line_broken_by_attribute :
    (∃ text, forgingRecord.textLine = .ok (text ++ ['\n']) ∧ '\n' ∈ text) ∧
    exportBatch .text [forgingRecord] = exportBatch .text
      [{ body := .text "first", severityText := some "INFO"
         attributes := .ofPairs [("note", .text "x")] },
       { body := .text "second", severityText := some "ERROR"
         attributes := .ofPairs [("note", .text "x")] }] := by
  have hloose : forgingRecord.looseText.count '\n' = 1 := by decide +kernel
  obtain ⟨line, hline⟩ := exists_line_of_isOk forgingRecord (by decide +kernel)
  obtain ⟨text, rfl, hcount⟩ := textLine_eq hline
  refine ⟨⟨text, hline, ?_⟩, by decide +kernel⟩
  exact List.count_pos_iff.mp (by omega)

end LogRecord

end LogContext
