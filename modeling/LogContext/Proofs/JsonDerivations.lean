import LogContext.Proofs.JsonNumbers

namespace LogContext

def Binary64.isFinite : Binary64 → Bool
  | .finite _ _ => true
  | .infinite _ | .nan => false

namespace Value

mutual

/-- Every float in the value, at any depth, is a finite one. -/
def floatsFinite : Value → Bool
  | .float x => x.isFinite
  | .list items | .tuple items => itemsFinite items
  | .object fields => fieldsFinite fields
  | _ => true

def itemsFinite : List Value → Bool
  | [] => true
  | value :: rest => value.floatsFinite && itemsFinite rest

def fieldsFinite : List (String × Value) → Bool
  | [] => true
  | (_, value) :: rest => value.floatsFinite && fieldsFinite rest

end

end Value

namespace Json

theorem isSome_hexDigit?_of_mem_hexDigits {width n : Nat} {c : Char} (h : c ∈ hexDigits width n) :
    (hexDigit? c).isSome = true := by
  induction width generalizing n with
  | zero => cases h
  | succ width ih =>
    rw [hexDigits, List.mem_append] at h
    rcases h with h | h
    · exact ih h
    · rw [List.mem_singleton.mp h, hexDigit?_digitChar _ (Nat.mod_lt n (by decide))]
      rfl

theorem isCharacter_unitEscape (unit : Nat) : IsCharacter (unitEscape unit) :=
  .unit (length_hexDigits 4 unit) fun _ hc => isSome_hexDigit?_of_mem_hexDigits hc

theorem mem_letters_of_shortEscape? {letter c : Char} (h : shortEscape? letter = some c) :
    letter ∈ ['"', '\\', '/', 'b', 'f', 'n', 'r', 't'] := by
  unfold shortEscape? at h
  grind

/-- What stands between the quotes of a string. -/
def IsInside (text : List Char) : Prop :=
  ∃ characters : List (List Char), (∀ c ∈ characters, IsCharacter c) ∧ text = characters.flatten

theorem IsInside.append {text other : List Char} (h : IsInside text) (hother : IsInside other) :
    IsInside (text ++ other) := by
  obtain ⟨characters, hcharacters, rfl⟩ := h
  obtain ⟨others, hothers, rfl⟩ := hother
  exact ⟨characters ++ others, List.forall_mem_append.mpr ⟨hcharacters, hothers⟩,
    List.flatten_append.symm⟩

theorem IsCharacter.isInside {text : List Char} (h : IsCharacter text) : IsInside text :=
  ⟨[text], List.forall_mem_singleton.mpr h, List.flatten_singleton.symm⟩

theorem isInside_jsonChar (c : Char) : IsInside (jsonChar c) := by
  rcases jsonChar_cases c with ⟨-, letter, -, -, hletter, heq⟩ | ⟨hc, hquote, hbackslash, heq⟩ | heq
  · rw [heq]
    exact (IsCharacter.letter (mem_letters_of_shortEscape? hletter)).isInside
  · rw [heq]
    simp only [isVisible, Bool.and_eq_true, decide_eq_true_eq] at hc
    exact (IsCharacter.plain hc.1 hquote hbackslash).isInside
  · refine ⟨(utf16Units c.toNat).map unitEscape, ?_, by rw [heq, List.flatMap_def]⟩
    exact List.forall_mem_map.mpr fun unit _ => isCharacter_unitEscape unit

theorem isInside_flatMap_jsonChar (text : List Char) : IsInside (text.flatMap jsonChar) := by
  induction text with
  | nil => exact ⟨[], List.forall_mem_nil _, rfl⟩
  | cons c text ih => exact (isInside_jsonChar c).append ih

theorem isString_jsonString (text : List Char) : IsString (jsonString text) := by
  obtain ⟨characters, hcharacters, heq⟩ := isInside_flatMap_jsonChar text
  rw [jsonString, heq]
  exact .of hcharacters

theorem isBlank_nil : IsBlank [] := List.forall_mem_nil _

theorem IsBlank.space {text : List Char} (h : IsBlank text) : IsBlank (' ' :: text) :=
  List.forall_mem_cons.mpr ⟨rfl, h⟩

theorem Derives.blank_entry {b : Bracket} {text : List Char} (h : Derives (.entry b) text) :
    Derives (.entry b) (' ' :: text) := by
  cases h with
  | item htext =>
    cases htext with
    | text hbefore hvalue hafter => exact .item (.text hbefore.space hvalue hafter)
  | field hbefore hkey hbetween htext => exact .field hbefore.space hkey hbetween htext

theorem Derives.blank_entries {b : Bracket} {text : List Char} (h : Derives (.entries b) text) :
    Derives (.entries b) (' ' :: text) := by
  cases h with
  | last hentry => exact .last hentry.blank_entry
  | more hentry hrest => exact .more hentry.blank_entry hrest

theorem derives_commaJoin {b : Bracket} {texts : List (List Char)} (hne : texts ≠ [])
    (h : ∀ text ∈ texts, Derives (.entry b) text) : Derives (.entries b) (commaJoin texts) := by
  induction texts with
  | nil => exact absurd rfl hne
  | cons text rest ih =>
    obtain ⟨htext, hrest⟩ := List.forall_mem_cons.mp h
    cases rest with
    | nil => exact .last htext
    | cons next rest =>
      rw [commaJoin_cons_cons, List.append_assoc]
      exact .more htext (ih (List.cons_ne_nil _ _) hrest).blank_entries

theorem derives_bracket (b : Bracket) {texts : List (List Char)}
    (h : ∀ text ∈ texts, Derives (.entry b) text) :
    Derives .value (b.opening :: (commaJoin texts ++ [b.closing])) := by
  cases texts with
  | nil => exact .empty isBlank_nil
  | cons text rest => exact .filled (derives_commaJoin (List.cons_ne_nil _ _) h)

theorem isText_of_value {text : List Char} (h : Derives .value text) : IsText text := by
  have htext := Derives.text isBlank_nil h isBlank_nil
  rwa [List.append_nil] at htext

theorem derives_jsonField (key : String) {text : List Char} (h : Derives .value text) :
    Derives (.entry .object) (jsonField key text) := by
  have htext := Derives.text isBlank_nil.space h isBlank_nil
  rw [List.append_nil] at htext
  have hfield := Derives.field isBlank_nil (isString_jsonString key.toList) isBlank_nil htext
  have hkey : jsonField key text = jsonString key.toList ++ ':' :: ' ' :: text :=
    List.append_assoc _ _ _
  rw [hkey]
  exact hfield

mutual

theorem derives_json : ∀ {value : Value}, value.floatsFinite = true → Derives .value value.json
  | .null, _ => .word (by decide)
  | .bool true, _ => .word (by decide)
  | .bool false, _ => .word (by decide)
  | .int n, _ => .number (isNumber_intDigits n)
  | .float (.finite negative m), _ => .number (Binary64.isNumber_text negative m)
  | .text s, _ => .string (isString_jsonString s.toList)
  | .list _, h => derives_bracket .array (derives_jsonItems h)
  | .tuple _, h => derives_bracket .array (derives_jsonItems h)
  | .object _, h => derives_bracket .object (derives_jsonFields h)
  | .marker, _ => .string (isString_jsonString _)
  | .role _, _ => .string (isString_jsonString _)
  | .execution _, _ => .string (isString_jsonString _)

theorem derives_jsonItems : ∀ {items : List Value}, Value.itemsFinite items = true →
    ∀ text ∈ Value.jsonItems items, Derives (.entry .array) text
  | [], _ => fun _ h => nomatch h
  | _ :: _, h => List.forall_mem_cons.mpr
    ⟨.item (isText_of_value (derives_json (Bool.and_eq_true_iff.mp h).1)),
      derives_jsonItems (Bool.and_eq_true_iff.mp h).2⟩

theorem derives_jsonFields : ∀ {fields : List (String × Value)}, Value.fieldsFinite fields = true →
    ∀ text ∈ Value.jsonFields fields, Derives (.entry .object) text
  | [], _ => fun _ h => nomatch h
  | (key, _) :: _, h => List.forall_mem_cons.mpr
    ⟨derives_jsonField key (derives_json (Bool.and_eq_true_iff.mp h).1),
      derives_jsonFields (Bool.and_eq_true_iff.mp h).2⟩

end

end Json

end LogContext
