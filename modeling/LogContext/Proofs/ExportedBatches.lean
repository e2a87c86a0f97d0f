import LogContext.Proofs.LineBreaks
import LogContext.Proofs.WorkOutcome

namespace LogContext

def hasLine {α ε : Type} (line : α → Except ε (List Char)) (record : α) : Bool :=
  (line record).isOk

/-- What keeps a record from having a line is its time alone, in either format. -/
theorem LineFormat.hasLine_iff (format : LineFormat) {record : LogRecord} :
    hasLine format.line record = true ↔ ∃ time, record.civilTime = .ok time := by
  constructor
  · intro hline
    cases htime : record.civilTime with
    | ok time => exact ⟨time, rfl⟩
    | error e =>
      have herror : format.line record = .error e := by
        cases format with
        | text => rw [line, LogRecord.textLine, htime]; rfl
        | json => rw [line, LogRecord.jsonLine, htime]; rfl
      rw [hasLine, herror] at hline
      cases hline
  · rintro ⟨time, htime⟩
    cases format with
    | text => rw [hasLine, line, LogRecord.textLine, htime]; rfl
    | json => rw [hasLine, line, LogRecord.jsonLine, htime]; rfl

section

variable {α ε : Type} (line : α → Except ε (List Char))

/-- Each line is written before the next record is looked at, so that a record without a line leaves
the lines before it written. -/
def writeLines : List α → Work ε (List Char) Unit
  | [] => pure ()
  | record :: rest => do
    let text ← Work.ofExcept (line record)
    modify (· ++ text)
    writeLines rest

/-- The loop on the text that was written before; how it ended is the result. -/
def exportTo (batch : List α) : Work ε (List Char) Bool := do
  let outcome ← (writeLines line batch).attempt
  pure outcome.isOk

theorem ends_writeLines (batch : List α) (written : List Char) :
    (writeLines line batch).Ends written fun outcome t =>
      outcome.isOk = (exportLines line batch).1 ∧ t = written ++ (exportLines line batch).2 := by
  induction batch generalizing written with
  | nil => exact ⟨rfl, (List.append_nil written).symm⟩
  | cons record rest ih =>
    rw [writeLines, Work.ends_bind, Work.ends_ofExcept]
    cases hline : line record with
    | error e =>
      rw [exportLines_of_error line hline]
      exact ⟨rfl, (List.append_nil written).symm⟩
    | ok text =>
      rw [exportLines_cons line hline]
      refine Work.ends_bind.mpr (Work.ends_modify.mpr ((ih (written ++ text)).imp ?_))
      rintro outcome t ⟨houtcome, rfl⟩
      exact ⟨houtcome, List.append_assoc written text _⟩

/-- The loop writes what the batch is said to write, and no failure leaves it. -/
theorem exportTo_eq (batch : List α) (written : List Char) :
    exportTo line batch written =
      .ok (exportLines line batch).1 (written ++ (exportLines line batch).2) := by
  refine Work.eq_ok_of_ends ?_
  rw [exportTo, Work.ends_bind, Work.ends_attempt]
  refine (ends_writeLines line batch written).imp ?_
  rintro outcome t ⟨houtcome, rfl⟩
  exact ⟨congrArg Except.ok houtcome, rfl⟩

theorem exportLines_eq (batch : List α) :
    ∃ lines : List (List Char),
      (batch.takeWhile (hasLine line)).map line = lines.map .ok ∧
      exportLines line batch = (batch.all (hasLine line), lines.flatten) := by
  induction batch with
  | nil => exact ⟨[], rfl, rfl⟩
  | cons record rest ih =>
    cases hline : line record with
    | error e =>
      have hnone : hasLine line record = false := by rw [hasLine, hline]; rfl
      exact ⟨[], by simp [hnone], by simp [exportLines_of_error line hline, hnone]⟩
    | ok text =>
      obtain ⟨lines, hlines, hbatch⟩ := ih
      have hsome : hasLine line record = true := by rw [hasLine, hline]; rfl
      refine ⟨text :: lines, by simp [hsome, hline, hlines], ?_⟩
      rw [exportLines_cons line hline, hbatch, List.all_cons, hsome, Bool.true_and,
        List.flatten_cons]

theorem exportLines_append {first : List α} (hfirst : first.all (hasLine line) = true)
    (second : List α) :
    exportLines line (first ++ second) = ((exportLines line second).1,
      (exportLines line first).2 ++ (exportLines line second).2) := by
  induction first with
  | nil => rfl
  | cons record rest ih =>
    rw [List.all_cons, Bool.and_eq_true] at hfirst
    cases hline : line record with
    | error e =>
      rw [hasLine, hline] at hfirst
      cases hfirst.1
    | ok text =>
      rw [List.cons_append, exportLines_cons line hline, exportLines_cons line hline,
        ih hfirst.2, List.append_assoc]

theorem exportTo_append {first : List α} (hfirst : first.all (hasLine line) = true)
    (second : List α) (written : List Char) :
    exportTo line (first ++ second) written =
      (exportTo line first >>= fun _ => exportTo line second) written := by
  rw [exportTo_eq, exportLines_append line hfirst]
  refine (Work.eq_ok_of_ends (Work.ends_bind.mpr ?_)).symm
  rw [Work.ends_of_ok (exportTo_eq line first written)]
  simp only
  rw [Work.ends_of_ok (exportTo_eq line second _)]
  exact ⟨rfl, List.append_assoc written _ _⟩

/-- An export ends without a failure, whatever the lines are and for whatever reason a record has none.
It appends the lines of the records before the first one that has none, and succeeds exactly if there
is no such record. Batches that are joined are written like one after the other if the first one
succeeds. In either format this is what is written of a batch. -/
theorem export_writes_lines_before_failure :
    (∀ batch written,
      (∃ lines : List (List Char),
        (batch.takeWhile (hasLine line)).map line = lines.map .ok ∧
        exportTo line batch written =
          .ok (batch.all (hasLine line)) (written ++ lines.flatten) ∧
        exportLines line batch = (batch.all (hasLine line), lines.flatten)) ∧
      ∀ next, batch.all (hasLine line) = true →
        exportTo line (batch ++ next) written =
          (exportTo line batch >>= fun _ => exportTo line next) written) ∧
    ∀ (format : LineFormat) batch written,
      exportTo format.line batch written =
        .ok (exportBatch format batch).1 (written ++ (exportBatch format batch).2) := by
  refine ⟨fun batch written => ?_, fun format => exportTo_eq format.line⟩
  obtain ⟨lines, hlines, hbatch⟩ := exportLines_eq line batch
  refine ⟨⟨lines, hlines, ?_, hbatch⟩, fun next hall => exportTo_append line hall next written⟩
  rw [exportTo_eq, hbatch]

end

/-- A record from long after the calendar has ended. -/
def lateRecord : LogRecord where
  timestamp := some 1000000000000000000000
  body := .text "late"

/-- The last of three records is not written, nor is anything of the one before it. -/
theorem export_writes_lines_before_failure_late :
    [LogRecord.escapedRecord].all (hasLine LineFormat.json.line) = true ∧
    ∃ line, LogRecord.escapedRecord.jsonLine = .ok line ∧
      (exportTo LineFormat.json.line [LogRecord.escapedRecord] >>= fun _ =>
        exportTo LineFormat.json.line [lateRecord, LogRecord.escapedRecord]) [] = .ok false line := by
  have hfirst : hasLine LineFormat.json.line LogRecord.escapedRecord = true :=
    LineFormat.json.hasLine_iff.mpr ⟨_, LogRecord.civilTime_of_untimed rfl⟩
  have hlate : hasLine LineFormat.json.line lateRecord = false := by decide +kernel
  have hall : [LogRecord.escapedRecord].all (hasLine LineFormat.json.line) = true := by
    simp [hfirst]
  obtain ⟨hexports, -⟩ := export_writes_lines_before_failure LineFormat.json.line
  obtain ⟨⟨lines, hlines, hexport, -⟩, -⟩ :=
    hexports ([LogRecord.escapedRecord] ++ [lateRecord, LogRecord.escapedRecord]) []
  obtain ⟨-, hjoined⟩ := hexports [LogRecord.escapedRecord] []
  have hbefore : ([LogRecord.escapedRecord] ++ [lateRecord, LogRecord.escapedRecord]).takeWhile
      (hasLine LineFormat.json.line) = [LogRecord.escapedRecord] := by simp [hfirst, hlate]
  rw [hbefore] at hlines
  cases lines with
  | nil => cases hlines
  | cons line rest =>
    obtain ⟨hline, hrest⟩ := List.cons.inj hlines
    have hnil : rest = [] := List.map_eq_nil_iff.mp hrest.symm
    refine ⟨hall, line, hline, ?_⟩
    rw [← hjoined _ hall, hexport, hnil]
    simp [hlate]

end LogContext
