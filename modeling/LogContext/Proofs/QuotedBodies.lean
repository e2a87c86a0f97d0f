import LogContext.LiteralReader
import LogContext.Proofs.JsonStrings
import LogContext.Proofs.LineBreaks

namespace LogContext

open BuiltinPower

namespace Literal

theorem quoteMark_cases (text : List Char) : quoteMark text = '\'' ∨ quoteMark text = '"' := by
  unfold quoteMark
  split
  · exact Or.inr rfl
  · exact Or.inl rfl

/-- A character stands for itself, is escaped by a letter, or is escaped by its code point. -/
theorem quotedChar_cases {mark : Char} (hmark : mark = '\'' ∨ mark = '"') (c : Char) :
    (∃ letter, isVisible letter = true ∧ letter ∉ ['x', 'u', 'U'] ∧
      letterEscape? letter = some c ∧ quotedChar mark c = ['\\', letter]) ∨
    (isPrintable c = true ∧ c ≠ mark ∧ c ∉ ['\\', '\n', '\r'] ∧ quotedChar mark c = [c]) ∨
    quotedChar mark c = codeEscape c.toNat := by
  unfold quotedChar
  split
  next h =>
    refine Or.inl ⟨c, ?_⟩
    rcases h with rfl | rfl
    · rcases hmark with rfl | rfl <;> exact ⟨by decide, by decide, rfl, rfl⟩
    · exact ⟨by decide, by decide, rfl, rfl⟩
  next hplain =>
  split
  next h => exact Or.inl ⟨'n', by decide, by decide, h ▸ rfl, rfl⟩
  next hfeed =>
  split
  next h => exact Or.inl ⟨'r', by decide, by decide, h ▸ rfl, rfl⟩
  next hreturn =>
  split
  next h => exact Or.inl ⟨'t', by decide, by decide, h ▸ rfl, rfl⟩
  next =>
  split
  next h =>
    obtain ⟨hquote, hbackslash⟩ := not_or.mp hplain
    exact Or.inr (Or.inl ⟨h, hquote, by simp [hbackslash, hfeed, hreturn], rfl⟩)
  next => exact Or.inr (Or.inr rfl)

theorem readInside?_letter (mark : Char) {letter c : Char} (hother : letter ∉ ['x', 'u', 'U'])
    (hletter : letterEscape? letter = some c) (rest : List Char) :
    readInside? mark ('\\' :: letter :: rest) = inFront (some c) (readInside? mark rest) := by
  simp only [List.mem_cons, List.not_mem_nil, or_false, not_or] at hother
  obtain ⟨hx, hu, hU⟩ := hother
  rw [readInside?.eq_5 mark letter rest (fun _ _ _ h => absurd h hx)
    (fun _ _ _ _ _ h => absurd h hu) (fun _ _ _ _ _ _ _ _ _ h => absurd h hU), hletter]

theorem readInside?_cons {mark c : Char} (hmark : c ≠ mark) (hplain : c ∉ ['\\', '\n', '\r'])
    (rest : List Char) :
    readInside? mark (c :: rest) = inFront (some c) (readInside? mark rest) := by
  simp only [List.mem_cons, List.not_mem_nil, or_false, not_or] at hplain
  have hbackslash := hplain.1
  rw [readInside?.eq_6 mark c rest (fun _ _ _ h => absurd h hbackslash)
    (fun _ _ _ _ _ h => absurd h hbackslash) (fun _ _ _ _ _ _ _ _ _ h => absurd h hbackslash)
    (fun _ _ h => absurd h hbackslash), if_neg hmark, if_neg (by simpa using hplain)]

theorem codePoint?_hexDigits {width : Nat} {c : Char} (h : c.toNat < 16 ^ width) :
    codePoint? (hexDigits width c.toNat) = some c := by
  have hvalid : c.toNat.isValidChar := c.valid
  rw [codePoint?, Json.hexValue?_hexDigits h, Option.bind_some, if_pos hvalid, Char.ofNat_toNat]

theorem readInside?_codeEscape (mark c : Char) (rest : List Char) :
    readInside? mark (codeEscape c.toNat ++ rest) = inFront (some c) (readInside? mark rest) := by
  unfold codeEscape
  split
  next h =>
    have hcode : codePoint? (hexDigits 2 c.toNat) = some c := codePoint?_hexDigits h
    rw [← hcode]
    rfl
  next =>
    split
    next h =>
      have hcode : codePoint? (hexDigits 4 c.toNat) = some c := codePoint?_hexDigits h
      rw [← hcode]
      rfl
    next =>
      have hlt : c.toNat < 16 ^ 8 := Nat.lt_trans (Json.toNat_lt c) (by decide)
      rw [← codePoint?_hexDigits hlt]
      rfl

/-- A character that is written in a literal is read again. -/
theorem readInside?_quotedChar {mark : Char} (hmark : mark = '\'' ∨ mark = '"') (c : Char)
    (rest : List Char) :
    readInside? mark (quotedChar mark c ++ rest) = inFront (some c) (readInside? mark rest) := by
  rcases quotedChar_cases hmark c with ⟨letter, -, hother, hletter, heq⟩ |
    ⟨-, hquote, hplain, heq⟩ | heq
  · rw [heq]
    exact readInside?_letter mark hother hletter rest
  · rw [heq]
    exact readInside?_cons hquote hplain rest
  · rw [heq]
    exact readInside?_codeEscape mark c rest

theorem readInside?_text {mark : Char} (hmark : mark = '\'' ∨ mark = '"') (text : List Char) :
    readInside? mark (text.flatMap (quotedChar mark) ++ [mark]) = some (text, []) := by
  induction text with
  | nil =>
    rcases hmark with rfl | rfl <;> rfl
  | cons c text ih =>
    rw [List.flatMap_cons, List.append_assoc, readInside?_quotedChar hmark, ih]
    rfl

/-- A quoted text is read as the text: the mark depends on the whole text, but no character within is
written like the mark. -/
theorem read?_quoted (text : List Char) : read? (quoted text) = some text := by
  have hmark := quoteMark_cases text
  rw [quoted, read?, if_pos hmark, readInside?_text hmark]
  rfl

end Literal

theorem isPrintable_of_isVisible {c : Char} (h : isVisible c = true) : isPrintable c = true := by
  have hcodes : ∀ code < 0x7f, 0x20 ≤ code → inRanges code unprintableRanges = false := by
    decide +kernel
  simp only [isVisible, Bool.and_eq_true, decide_eq_true_eq] at h
  have hlow : 0x20 ≤ c.toNat := h.1
  have hhigh : c.toNat ≤ 0x7e := h.2
  rw [isPrintable, hcodes c.toNat (by omega) hlow]
  rfl

theorem isPrintable_quotedChar {mark : Char} (hmark : mark = '\'' ∨ mark = '"') (c : Char) :
    ∀ other ∈ quotedChar mark c, isPrintable other = true := by
  have hvisible : ∀ {text}, Visible text → ∀ other ∈ text, isPrintable other = true :=
    fun h other ho => isPrintable_of_isVisible (h other ho)
  rcases Literal.quotedChar_cases hmark c with ⟨letter, hletter, -, -, heq⟩ | ⟨hc, -, -, heq⟩ | heq
  · rw [heq]
    exact hvisible (visible_cons.mpr ⟨by decide, visible_cons.mpr ⟨hletter, visible_nil⟩⟩)
  · rw [heq]
    exact List.forall_mem_singleton.mpr hc
  · rw [heq]
    exact hvisible (visible_codeEscape _)

/-- Nothing unprintable is left in a literal. -/
theorem isPrintable_quoted (text : List Char) : ∀ c ∈ quoted text, isPrintable c = true := by
  have hmark : isPrintable (quoteMark text) = true := by
    rcases Literal.quoteMark_cases text with h | h <;> rw [h] <;> decide +kernel
  refine List.forall_mem_cons.mpr ⟨hmark, List.forall_mem_append.mpr ⟨fun c hc => ?_, ?_⟩⟩
  · obtain ⟨other, -, hc⟩ := List.mem_flatMap.mp hc
    exact isPrintable_quotedChar (Literal.quoteMark_cases text) other c hc
  · exact List.forall_mem_singleton.mpr hmark

/-- The controls of ASCII, and what else ends a line. -/
def breakingCodes : List Nat := List.range 0x20 ++ [0x7f, 0x85, 0x2028, 0x2029]

theorem not_mem_breakingCodes_of_isPrintable {c : Char} (h : isPrintable c = true) :
    c.toNat ∉ breakingCodes := by
  have hcodes : ∀ code ∈ breakingCodes, inRanges code unprintableRanges = true := by decide +kernel
  intro hm
  rw [isPrintable, hcodes c.toNat hm] at h
  cases h

namespace LogRecord

/-- The body of a line is a literal from which a text is read back, so that no other text gives the
same line. -/
theorem string_body_is_read_back (record : LogRecord) (time : CivilTime)
    (htime : record.civilTime = .ok time) (body : String) :
    ∃ literal, { record with body := .text body }.textLine =
        .ok (record.textHead time ++ literal ++ ['\n']) ∧
      (∀ c ∈ literal, c.toNat ∉ breakingCodes) ∧ Literal.read? literal = some body.toList ∧
      ∀ other, other ≠ body →
        { record with body := .text other }.textLine ≠ { record with body := .text body }.textLine := by
  have hline : ∀ text : String, { record with body := .text text }.textLine =
      .ok (record.textHead time ++ quoted text.toList ++ ['\n']) := by
    intro text
    have htime' : { record with body := .text text }.civilTime = .ok time := htime
    exact textLine_of_civilTime htime'
  refine ⟨quoted body.toList, hline body, fun c hc => ?_, Literal.read?_quoted _, ?_⟩
  · exact not_mem_breakingCodes_of_isPrintable (isPrintable_quoted _ c hc)
  · intro other hne heq
    rw [hline, hline] at heq
    have hquoted : quoted other.toList = quoted body.toList :=
      List.append_cancel_left (List.append_cancel_right (Except.ok.inj heq))
    have hread := congrArg Literal.read? hquoted
    rw [Literal.read?_quoted, Literal.read?_quoted] at hread
    exact hne (String.toList_inj.mp (Option.some.inj hread))

/-- Both kinds of quotes, what looks escaped already, and escapes of all three widths. -/
def disguised : String :=
  "it's \"\\x41\"\n\x85\u2028😀" ++ String.singleton (Char.ofNat 0x10ffff)

theorem string_body_is_read_back_disguised :
    (∃ literal, { escapedRecord with body := .text disguised }.textLine =
        .ok (escapedRecord.textHead ⟨1970, 1, 1, 0, 0, 0, 0⟩ ++ literal ++ ['\n']) ∧
      (∀ c ∈ literal, c.toNat ∉ breakingCodes) ∧
      Literal.read? literal = some disguised.toList) ∧
    { escapedRecord with body := .text "\n" }.textLine ≠
      { escapedRecord with body := .text "\\n" }.textLine := by
  have htime : escapedRecord.civilTime = .ok ⟨1970, 1, 1, 0, 0, 0, 0⟩ := civilTime_of_untimed rfl
  obtain ⟨literal, hline, hcodes, hread, -⟩ :=
    string_body_is_read_back escapedRecord _ htime disguised
  obtain ⟨-, -, -, -, hother⟩ := string_body_is_read_back escapedRecord _ htime "\\n"
  exact ⟨⟨literal, hline, hcodes, hread⟩, hother "\n" (by decide)⟩

end LogRecord

end LogContext
