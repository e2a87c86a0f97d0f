import LogContext.JsonReader
import LogContext.Proofs.WrittenText

namespace LogContext

open BuiltinPower Json

/-- A character is escaped by a letter, stands for itself, or is escaped by its UTF-16 units. -/
theorem jsonChar_cases (c : Char) :
    (c.toNat < 0x80 ∧ ∃ letter, isVisible letter = true ∧ letter ≠ 'u' ∧
      shortEscape? letter = some c ∧ jsonChar c = ['\\', letter]) ∨
    (isVisible c = true ∧ c ≠ '"' ∧ c ≠ '\\' ∧ jsonChar c = [c]) ∨
    jsonChar c = (utf16Units c.toNat).flatMap unitEscape := by
  unfold jsonChar
  split
  next h =>
    subst h
    exact Or.inl ⟨by decide, '"', by decide, by decide, by decide, rfl⟩
  next hquote =>
  split
  next h =>
    subst h
    exact Or.inl ⟨by decide, '\\', by decide, by decide, by decide, rfl⟩
  next hbackslash =>
  split
  next h => exact h ▸ Or.inl ⟨by decide, 'n', by decide, by decide, by decide, rfl⟩
  next =>
  split
  next h => exact h ▸ Or.inl ⟨by decide, 'r', by decide, by decide, by decide, rfl⟩
  next =>
  split
  next h => exact h ▸ Or.inl ⟨by decide, 't', by decide, by decide, by decide, rfl⟩
  next =>
  split
  next h => exact h ▸ Or.inl ⟨by decide, 'b', by decide, by decide, by decide, rfl⟩
  next =>
  split
  next h => exact h ▸ Or.inl ⟨by decide, 'f', by decide, by decide, by decide, rfl⟩
  next =>
  split
  next h => exact Or.inr (Or.inl ⟨by simpa [isVisible] using h, hquote, hbackslash, rfl⟩)
  next => exact Or.inr (Or.inr rfl)

theorem visible_jsonChar (c : Char) : Visible (jsonChar c) := by
  rcases jsonChar_cases c with ⟨-, letter, hletter, -, -, heq⟩ | ⟨hc, -, -, heq⟩ | heq
  · have hbackslash : isVisible '\\' = true := by decide
    simp [heq, hletter, hbackslash]
  · simp [heq, hc]
  · rw [heq]
    intro other ho
    obtain ⟨unit, -, ho⟩ := List.mem_flatMap.mp ho
    have hunit : Visible (unitEscape unit) := by
      simp [unitEscape, visible_hexDigits, isVisible]
    exact hunit other ho

theorem visible_jsonString (text : List Char) : Visible (jsonString text) := by
  have hinside : Visible (text.flatMap jsonChar) := by
    intro c hc
    obtain ⟨other, -, hc⟩ := List.mem_flatMap.mp hc
    exact visible_jsonChar other c hc
  simp [jsonString, hinside, isVisible]

theorem visible_jsonArray {items : List (List Char)} (h : ∀ item ∈ items, Visible item) :
    Visible (jsonArray items) := by
  simp [jsonArray, visible_commaJoin h, isVisible]

theorem visible_jsonObject {fields : List (List Char)} (h : ∀ field ∈ fields, Visible field) :
    Visible (jsonObject fields) := by
  simp [jsonObject, visible_commaJoin h, isVisible]

theorem visible_jsonField (key : String) {value : List Char} (h : Visible value) :
    Visible (jsonField key value) := by
  have hcolon : Visible ": ".toList := by decide
  simp only [jsonField, visible_append]
  exact ⟨⟨visible_jsonString _, hcolon⟩, h⟩

theorem visible_jsonFloat (x : Binary64) : Visible (jsonFloat x) := by
  cases x with
  | nan => decide
  | infinite negative => cases negative <;> decide
  | finite negative m => exact (Binary64.finite negative m).visible_text

namespace Value

mutual

/-- JSON text is visible ASCII, whatever the texts of the value hold. -/
theorem visible_json : ∀ value : Value, Visible value.json
  | .null => by decide
  | .bool true => by decide
  | .bool false => by decide
  | .int n => visible_intDigits n
  | .float x => visible_jsonFloat x
  | .text s => visible_jsonString s.toList
  | .list items => visible_jsonArray (visible_jsonItems items)
  | .tuple items => visible_jsonArray (visible_jsonItems items)
  | .object fields => visible_jsonObject (visible_jsonFields fields)
  | .marker => visible_jsonString _
  | .role _ => visible_jsonString _
  | .execution _ => visible_jsonString _

theorem visible_jsonItems : ∀ items : List Value, ∀ text ∈ jsonItems items, Visible text
  | [] => fun _ h => nomatch h
  | value :: rest => List.forall_mem_cons.mpr ⟨visible_json value, visible_jsonItems rest⟩

theorem visible_jsonFields :
    ∀ fields : List (String × Value), ∀ text ∈ jsonFields fields, Visible text
  | [] => fun _ h => nomatch h
  | (key, value) :: rest => List.forall_mem_cons.mpr
    ⟨visible_jsonField key (visible_json value), visible_jsonFields rest⟩

end

end Value

namespace Json

theorem hexDigit?_digitChar : ∀ digit < 16, hexDigit? (Nat.digitChar digit) = some digit := by
  decide

theorem hexValue?_hexDigits {width n : Nat} (h : n < 16 ^ width) :
    hexValue? (hexDigits width n) = some n := by
  induction width generalizing n with
  | zero =>
    obtain rfl : n = 0 := Nat.lt_one_iff.mp h
    rfl
  | succ width ih =>
    have hshort : n / 16 < 16 ^ width := Nat.div_lt_of_lt_mul (by rwa [Nat.mul_comm, ← Nat.pow_succ])
    have hlast := hexDigit?_digitChar (n % 16) (Nat.mod_lt n (by decide))
    have hvalue := ih hshort
    unfold hexValue? at hvalue ⊢
    rw [hexDigits, List.foldlM_append, hvalue]
    simp only [Option.bind_eq_bind, Option.bind_some, List.foldlM_cons, List.foldlM_nil, hlast,
      Option.map_some]
    exact congrArg some (by omega)

theorem readUnits?_unitEscape {unit : Nat} (h : unit < 0x10000) (rest : List Char) :
    readUnits? (unitEscape unit ++ rest) = (readUnits? rest).map (Prod.map (unit :: ·) id) := by
  have hvalue : hexValue? (hexDigits 4 unit) = some unit := hexValue?_hexDigits h
  simp only [hexDigits, List.nil_append, List.cons_append] at hvalue
  simp only [unitEscape, hexDigits, List.nil_append, List.cons_append, readUnits?, hvalue]
  cases readUnits? rest <;> rfl

theorem utf16Units_lt {code unit : Nat} (hcode : code < 0x110000) (h : unit ∈ utf16Units code) :
    unit < 0x10000 := by
  unfold utf16Units at h
  split at h
  next => simp at h; omega
  next => simp at h; omega

theorem readUnits?_unitEscapes {units : List Nat} (h : ∀ unit ∈ units, unit < 0x10000)
    (rest : List Char) :
    readUnits? (units.flatMap unitEscape ++ rest) =
      (readUnits? rest).map (Prod.map (units ++ ·) id) := by
  induction units with
  | nil =>
    rw [List.flatMap_nil, List.nil_append]
    cases readUnits? rest <;> rfl
  | cons unit units ih =>
    obtain ⟨hunit, hunits⟩ := List.forall_mem_cons.mp h
    rw [List.flatMap_cons, List.append_assoc, readUnits?_unitEscape hunit, ih hunits]
    cases readUnits? rest <;> rfl

theorem toNat_lt (c : Char) : c.toNat < 0x110000 := by
  rcases c.valid with h | ⟨-, h⟩
  · exact Nat.lt_trans h (by decide)
  · exact h

theorem toNat_lt_of_isVisible {c : Char} (h : isVisible c = true) : c.toNat < 0x80 := by
  simp only [isVisible, Bool.and_eq_true, decide_eq_true_eq] at h
  exact Nat.lt_of_le_of_lt h.2 (by decide)

theorem utf16Units_of_lt {code : Nat} (h : code < 0x80) : utf16Units code = [code] :=
  if_pos (Nat.lt_trans h (by decide))

theorem readUnits?_shortEscape {letter c : Char} (hu : letter ≠ 'u')
    (hletter : shortEscape? letter = some c) (rest : List Char) :
    readUnits? ('\\' :: letter :: rest) =
      (readUnits? rest).map (Prod.map (c.toNat :: ·) id) := by
  rw [readUnits?.eq_4 letter rest fun _ _ _ _ _ h => absurd h hu, hletter]
  cases readUnits? rest <;> rfl

theorem readUnits?_cons {c : Char} (hc : isVisible c = true) (hquote : c ≠ '"')
    (hbackslash : c ≠ '\\') (rest : List Char) :
    readUnits? (c :: rest) = (readUnits? rest).map (Prod.map (c.toNat :: ·) id) := by
  have hplain : ¬(c < ' ' ∨ c = '\\') := by
    simp only [isVisible, Bool.and_eq_true, decide_eq_true_eq] at hc
    exact not_or.mpr ⟨Char.not_lt.mpr hc.1, hbackslash⟩
  rw [readUnits?.eq_5 c rest hquote (fun _ _ _ _ _ h => absurd h hbackslash)
    (fun _ _ h => absurd h hbackslash), if_neg hplain]
  cases readUnits? rest <;> rfl

/-- A written character is read as its units. -/
theorem readUnits?_jsonChar (c : Char) (rest : List Char) :
    readUnits? (jsonChar c ++ rest) =
      (readUnits? rest).map (Prod.map (utf16Units c.toNat ++ ·) id) := by
  rcases jsonChar_cases c with ⟨hc, letter, -, hu, hletter, heq⟩ | ⟨hc, hquote, hbackslash, heq⟩ |
    heq
  · rw [heq, utf16Units_of_lt hc]
    exact readUnits?_shortEscape hu hletter rest
  · rw [heq, utf16Units_of_lt (toNat_lt_of_isVisible hc)]
    exact readUnits?_cons hc hquote hbackslash rest
  · rw [heq]
    exact readUnits?_unitEscapes (fun _ hu => utf16Units_lt (toNat_lt c) hu) rest

/-- The units of a character are joined to the character again. -/
theorem joinUnits?_utf16Units (c : Char) (units : List Nat) :
    joinUnits? (utf16Units c.toNat ++ units) = (joinUnits? units).map (c :: ·) := by
  unfold utf16Units
  split
  next =>
    have hhigh : isHighSurrogate c.toNat = false := by
      simp only [isHighSurrogate, Bool.and_eq_false_iff, decide_eq_false_iff_not]
      rcases c.valid with h | ⟨h, -⟩ <;> simp only [Char.toNat] <;> omega
    have hlow : isLowSurrogate c.toNat = false := by
      simp only [isLowSurrogate, Bool.and_eq_false_iff, decide_eq_false_iff_not]
      rcases c.valid with h | ⟨h, -⟩ <;> simp only [Char.toNat] <;> omega
    rw [List.singleton_append, joinUnits?.eq_def]
    simp only [hhigh, hlow, Bool.false_eq_true, ↓reduceIte, Char.ofNat_toNat]
  next hlarge =>
    have hlt := toNat_lt c
    have hhigh : isHighSurrogate (0xd800 + (c.toNat - 0x10000) / 0x400) = true := by
      simp [isHighSurrogate]
      omega
    have hlow : isLowSurrogate (0xdc00 + (c.toNat - 0x10000) % 0x400) = true := by
      simp [isLowSurrogate]
      omega
    have hjoined : 0x10000 + (0xd800 + (c.toNat - 0x10000) / 0x400 - 0xd800) * 0x400 +
        (0xdc00 + (c.toNat - 0x10000) % 0x400 - 0xdc00) = c.toNat := by
      omega
    simp only [List.cons_append, List.nil_append, joinUnits?, hhigh, hlow, ↓reduceIte, hjoined,
      Char.ofNat_toNat]

/-- A written text is read up to its closing quote. -/
theorem readUnits?_text (text rest : List Char) :
    readUnits? (text.flatMap jsonChar ++ '"' :: rest) =
      some (text.flatMap fun c => utf16Units c.toNat, rest) := by
  induction text with
  | nil => rfl
  | cons c text ih =>
    rw [List.flatMap_cons, List.append_assoc, readUnits?_jsonChar, ih]
    rfl

theorem joinUnits?_text (text : List Char) :
    joinUnits? (text.flatMap fun c => utf16Units c.toNat) = some text := by
  induction text with
  | nil => rfl
  | cons c text ih => rw [List.flatMap_cons, joinUnits?_utf16Units, ih, Option.map_some]

theorem readString?_text (text rest : List Char) :
    readString? (text.flatMap jsonChar ++ '"' :: rest) = some (String.ofList text, rest) := by
  rw [readString?, readUnits?_text]
  simp only [Option.bind_eq_bind, Option.bind_some, joinUnits?_text]
  rfl

end Json

end LogContext
