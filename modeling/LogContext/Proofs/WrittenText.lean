import LogContext.LogRecord

namespace LogContext

/-- The space and the visible characters of ASCII. -/
def isVisible (c : Char) : Bool := ' ' ≤ c && c ≤ '~'

/-- A text without control characters and in ASCII alone. -/
def Visible (text : List Char) : Prop := ∀ c ∈ text, isVisible c = true

instance (text : List Char) : Decidable (Visible text) :=
  List.decidableBAll (fun c => isVisible c = true) text

@[simp] theorem visible_nil : Visible [] := fun _ h => nomatch h

@[simp] theorem visible_cons {c : Char} {text : List Char} :
    Visible (c :: text) ↔ isVisible c = true ∧ Visible text := List.forall_mem_cons

@[simp] theorem visible_append {text other : List Char} :
    Visible (text ++ other) ↔ Visible text ∧ Visible other := List.forall_mem_append

theorem Visible.of_subset {text other : List Char} (h : Visible other) (hsub : text ⊆ other) :
    Visible text := fun c hc => h c (hsub hc)

theorem Visible.lineFeed_not_mem {text : List Char} (h : Visible text) : '\n' ∉ text :=
  fun hm => absurd (h '\n' hm) (by decide)

theorem isVisible_of_isDigit {c : Char} (h : c.isDigit = true) : isVisible c = true := by
  simp only [Char.isDigit, Bool.and_eq_true, decide_eq_true_eq] at h
  simp only [isVisible, Bool.and_eq_true, decide_eq_true_eq]
  exact ⟨Nat.le_trans (by decide) h.1, Nat.le_trans h.2 (by decide)⟩

theorem visible_replicate {c : Char} (h : isVisible c = true) (n : Nat) :
    Visible (List.replicate n c) := fun _ ho => List.eq_of_mem_replicate ho ▸ h

theorem visible_padLeft {fill : Char} (hfill : isVisible fill = true) (width : Nat)
    {text : List Char} (h : Visible text) : Visible (padLeft width fill text) :=
  visible_append.mpr ⟨visible_replicate hfill _, h⟩

theorem visible_natDigits (n : Nat) : Visible (natDigits n) :=
  fun _ hc => isVisible_of_isDigit (Nat.isDigit_of_mem_toDigits (by decide) (by decide) hc)

theorem visible_intDigits (n : Int) : Visible (intDigits n) := by
  unfold intDigits
  split
  · exact visible_cons.mpr ⟨by decide, visible_natDigits _⟩
  · exact visible_natDigits _

theorem visible_hexDigits (width n : Nat) : Visible (hexDigits width n) := by
  have hdigit : ∀ digit < 16, isVisible (Nat.digitChar digit) = true := by decide
  induction width generalizing n with
  | zero => exact visible_nil
  | succ width ih =>
    have hlast := hdigit (n % 16) (Nat.mod_lt n (by decide))
    simp [hexDigits, ih, hlast]

theorem mem_commaJoin {c : Char} {texts : List (List Char)} (h : c ∈ commaJoin texts) :
    c ∈ separator ∨ ∃ text ∈ texts, c ∈ text := by
  induction texts with
  | nil => cases h
  | cons text rest ih =>
    cases rest with
    | nil => exact Or.inr ⟨text, List.mem_cons_self, h⟩
    | cons next rest =>
      rcases List.mem_append.mp h with h | h
      · rcases List.mem_append.mp h with h | h
        · exact Or.inr ⟨text, List.mem_cons_self, h⟩
        · exact Or.inl h
      · rcases ih h with hseparator | ⟨other, ho, hc⟩
        · exact Or.inl hseparator
        · exact Or.inr ⟨other, List.mem_cons_of_mem _ ho, hc⟩

theorem visible_commaJoin {texts : List (List Char)} (h : ∀ text ∈ texts, Visible text) :
    Visible (commaJoin texts) := by
  have hseparator : Visible separator := by decide
  intro c hc
  rcases mem_commaJoin hc with hc | ⟨text, ht, hc⟩
  · exact hseparator c hc
  · exact h text ht c hc

theorem visible_exponentText (exponent : Int) : Visible (exponentText exponent) := by
  have hdigits : Visible (padLeft 2 '0' (natDigits exponent.natAbs)) :=
    visible_padLeft (by decide) 2 (visible_natDigits _)
  have hsign : isVisible (if exponent < 0 then '-' else '+') = true := by
    split <;> decide
  exact visible_cons.mpr ⟨by decide, visible_cons.mpr ⟨hsign, hdigits⟩⟩

theorem visible_decimalText {digits : List Char} (h : Visible digits) (point : Int) :
    Visible (decimalText digits point) := by
  have hzeros : ∀ n, Visible (List.replicate n '0') := visible_replicate (by decide)
  have hzero : isVisible '0' = true := by decide
  have hpoint : isVisible '.' = true := by decide
  unfold decimalText
  split
  next =>
    split
    next => exact visible_nil
    next d => exact visible_cons.mpr ⟨(visible_cons.mp h).1, visible_exponentText _⟩
    next d rest _ =>
      obtain ⟨hd, hrest⟩ := visible_cons.mp h
      simp [hd, hrest, hpoint, visible_exponentText]
  next =>
    split
    next => simp [h, hzero, hpoint, hzeros]
    next =>
      split
      next => simp [h, hzero, hpoint, hzeros]
      next =>
        have htake : Visible (digits.take point.toNat) := h.of_subset (List.take_subset _ _)
        have hdrop : Visible (digits.drop point.toNat) := h.of_subset (List.drop_subset _ _)
        simp [htake, hdrop, hpoint]

theorem Decimal.visible_significant (d : Decimal) : Visible d.significant.1 := by
  refine (visible_natDigits d.digits).of_subset fun c hc => ?_
  have hkept := (List.dropWhile_sublist _).subset (List.mem_reverse.mp hc)
  exact List.mem_reverse.mp hkept

theorem Magnitude.visible_text (m : Magnitude) : Visible m.text := by
  unfold Magnitude.text
  split
  · decide
  · exact visible_decimalText m.shortest.visible_significant _

theorem Binary64.visible_text (x : Binary64) : Visible x.text := by
  cases x with
  | nan => decide
  | infinite negative => cases negative <;> decide
  | finite negative m =>
    cases negative with
    | false => exact m.visible_text
    | true => exact visible_cons.mpr ⟨by decide, m.visible_text⟩

theorem CivilTime.visible_sinceYear (time : CivilTime) : Visible time.sinceYear := by
  have hpad : ∀ n, Visible (pad2 n) := fun n => visible_padLeft (by decide) 2 (visible_natDigits n)
  simp [sinceYear, hpad, isVisible]

theorem CivilTime.visible_toSecondText (time : CivilTime) : Visible time.toSecondText := by
  simp [toSecondText, visible_natDigits, time.visible_sinceYear, isVisible]

theorem visible_codeEscape (code : Nat) : Visible (codeEscape code) := by
  unfold codeEscape
  split
  · simp [visible_hexDigits, isVisible]
  · split <;> simp [visible_hexDigits, isVisible]

end LogContext
