import LogContext.JsonGrammar
import LogContext.Proofs.JsonRoundTrip

namespace LogContext

open BuiltinPower

namespace Json

theorem isDigits_of_ne_nil {digits : List Char} (hne : digits ≠ [])
    (hdigits : ∀ c ∈ digits, c.isDigit = true) : IsDigits digits := by
  cases digits with
  | nil => exact absurd rfl hne
  | cons first rest =>
    obtain ⟨hfirst, hrest⟩ := List.forall_mem_cons.mp hdigits
    exact .of hfirst hrest

theorem isDigit_of_mem_zeros (n : Nat) : ∀ c ∈ List.replicate n '0', c.isDigit = true := by
  intro c hc
  rw [List.eq_of_mem_replicate hc]
  decide

theorem isWhole_natDigits (n : Nat) : IsWhole (natDigits n) := by
  rcases Nat.eq_zero_or_pos n with rfl | hpos
  · exact .zero
  · have hhead := head?_natDigits hpos
    have hdigits : ∀ c ∈ natDigits n, c.isDigit = true := fun _ hc => isDigit_of_mem_natDigits hc
    cases h : natDigits n with
    | nil => exact absurd h Nat.toDigits_ne_nil
    | cons first rest =>
      rw [h] at hdigits hhead
      exact .digits (isDigits_of_ne_nil (List.cons_ne_nil _ _) hdigits)
        fun hzero => hhead (congrArg some hzero)

theorem IsWhole.unsigned {whole : List Char} (h : IsWhole whole) : IsUnsigned whole := by
  have hunsigned := IsUnsigned.of h .absent .absent
  rwa [List.append_nil, List.append_nil] at hunsigned

theorem isNumber_intDigits (n : Int) : IsNumber (intDigits n) := by
  unfold intDigits
  split
  · exact .negative (isWhole_natDigits _).unsigned
  · exact .plain (isWhole_natDigits _).unsigned

theorem isPower_exponentText (exponent : Int) : IsPower (exponentText exponent) := by
  have hdigits : IsDigits (padLeft 2 '0' (natDigits exponent.natAbs)) :=
    isDigits_of_ne_nil (List.append_ne_nil_of_right_ne_nil _ Nat.toDigits_ne_nil)
      (List.forall_mem_append.mpr
        ⟨isDigit_of_mem_zeros _, fun _ hc => isDigit_of_mem_natDigits hc⟩)
  refine .signed (Or.inl rfl) ?_ hdigits
  split
  · exact Or.inr rfl
  · exact Or.inl rfl

/-- Wherever the point stands: digits that do not start with a zero are written as a number. -/
theorem isUnsigned_decimalText {first : Char} {rest : List Char}
    (hdigits : ∀ c ∈ first :: rest, c.isDigit = true) (hzero : first ≠ '0') (point : Int) :
    IsUnsigned (decimalText (first :: rest) point) := by
  obtain ⟨hfirst, hrest⟩ := List.forall_mem_cons.mp hdigits
  have hwhole : ∀ {more}, (∀ c ∈ more, c.isDigit = true) → IsWhole (first :: more) :=
    fun hmore => .digits (.of hfirst hmore) hzero
  unfold decimalText
  split
  next =>
    cases rest with
    | nil => exact .of (hwhole hrest) .absent (isPower_exponentText _)
    | cons next rest =>
      have hfirst : IsWhole [first] := hwhole fun _ hc => absurd hc List.not_mem_nil
      exact .of hfirst (.digits (isDigits_of_ne_nil (List.cons_ne_nil _ _) hrest))
        (isPower_exponentText _)
  next =>
    split
    next =>
      have hfraction : IsDigits (List.replicate (-point).toNat '0' ++ first :: rest) :=
        isDigits_of_ne_nil (List.append_ne_nil_of_right_ne_nil _ (List.cons_ne_nil _ _))
          (List.forall_mem_append.mpr ⟨isDigit_of_mem_zeros _, hdigits⟩)
      have h := IsUnsigned.of .zero (.digits hfraction) .absent
      rwa [List.append_nil] at h
    next hpoint =>
      split
      next =>
        have hfraction : IsDigits ['0'] := .of (by decide) (List.forall_mem_nil _)
        exact .of (hwhole (List.forall_mem_append.mpr ⟨hrest, isDigit_of_mem_zeros _⟩))
          (.digits hfraction) .absent
      next hlong =>
        -- the first digit stands before the point
        obtain ⟨places, hplaces⟩ : ∃ places, point.toNat = places + 1 :=
          ⟨point.toNat - 1, by omega⟩
        rw [hplaces, List.length_cons] at hlong
        have hfraction : IsDigits (rest.drop places) :=
          isDigits_of_ne_nil (by rw [Ne, List.drop_eq_nil_iff]; omega)
            fun c hc => hrest c (List.mem_of_mem_drop hc)
        have htake : ∀ c ∈ rest.take places, c.isDigit = true :=
          fun c hc => hrest c (List.mem_of_mem_take hc)
        have h := IsUnsigned.of (hwhole htake) (.digits hfraction) .absent
        rw [List.append_nil] at h
        rw [hplaces]
        exact h

end Json

/-- Zeros at the end are not significant; a number above zero has digits before them. -/
theorem Decimal.exists_significant_cons {d : Decimal} (h : d.digits ≠ 0) :
    ∃ first rest, d.significant.1 = first :: rest ∧ first ≠ '0' ∧
      ∀ c ∈ first :: rest, c.isDigit = true := by
  have hhead := Json.head?_natDigits (Nat.pos_of_ne_zero h)
  have hisDigit : ∀ c ∈ natDigits d.digits, c.isDigit = true :=
    fun _ hc => Json.isDigit_of_mem_natDigits hc
  cases hdigits : natDigits d.digits with
  | nil => exact absurd hdigits Nat.toDigits_ne_nil
  | cons first rest =>
    rw [hdigits] at hhead hisDigit
    obtain ⟨hfirst, hrest⟩ := List.forall_mem_cons.mp hisDigit
    have hzero : first ≠ '0' := fun hfirst => hhead (congrArg some hfirst)
    have hkept : (rest.reverse ++ [first]).dropWhile (· = '0') =
        rest.reverse.dropWhile (· = '0') ++ [first] := by
      rw [List.dropWhile_append]
      split
      next hempty => simp [List.isEmpty_iff.mp hempty, hzero]
      next => rfl
    refine ⟨first, (rest.reverse.dropWhile (· = '0')).reverse, ?_, hzero, ?_⟩
    · simp only [significant, hdigits, List.reverse_cons, hkept, List.reverse_append,
        List.reverse_nil, List.nil_append, List.cons_append]
    · refine List.forall_mem_cons.mpr ⟨hfirst, fun c hc => hrest c ?_⟩
      exact List.mem_reverse.mp ((List.dropWhile_sublist _).subset (List.mem_reverse.mp hc))

namespace Magnitude

theorem interval_fst_pos {m : Magnitude} (h : m.mantissa ≠ 0) : 0 < m.interval.1 := by
  have hunit : 0 < 2 ^ m.shift := Nat.two_pow_pos _
  have hunits : 2 ^ m.shift ≤ m.units := Nat.le_mul_of_pos_left _ (Nat.pos_of_ne_zero h)
  simp only [interval]
  split <;> omega

/-- Zero is not rounded to a number above zero. -/
theorem readsBack_zero {m : Magnitude} (h : m.mantissa ≠ 0) (exponent : Int) :
    m.readsBack 0 exponent = false := by
  have hlow := Nat.mul_pos (interval_fst_pos h) (Nat.pow_pos (n := (-exponent).toNat) (by decide : 0 < 10))
  simp only [readsBack, Nat.zero_mul]
  split
  · simp only [Bool.and_eq_false_iff, decide_eq_false_iff_not]
    omega
  · simp only [Bool.and_eq_false_iff, decide_eq_false_iff_not]
    omega

theorem readsBack_of_decimalOf? {m : Magnitude} {length : Nat} {d : Decimal}
    (hd : m.decimalOf? length = some d) : m.readsBack d.digits (m.point - length) = true := by
  simp only [decimalOf?] at hd
  split at hd <;> grind

/-- Either some digits read back, and they are not all zero, or the digit of zero stands for them. -/
theorem shortest_cases {m : Magnitude} (h : m.mantissa ≠ 0) :
    m.shortest.digits ≠ 0 ∨ m.shortest = ⟨0, 1, 1⟩ := by
  unfold shortest
  cases hfound : (List.range 17).findSome? fun n => m.decimalOf? (n + 1) with
  | none => exact Or.inr rfl
  | some d =>
    obtain ⟨n, -, hd⟩ := List.exists_of_findSome?_eq_some hfound
    refine Or.inl fun hzero => ?_
    have hreads := readsBack_of_decimalOf? hd
    rw [Option.getD_some] at hzero
    rw [hzero, readsBack_zero h] at hreads
    cases hreads

theorem isUnsigned_text (m : Magnitude) : Json.IsUnsigned m.text := by
  have hfraction : Json.IsDigits ['0'] := .of (by decide) (List.forall_mem_nil _)
  have hzero : Json.IsUnsigned ['0', '.', '0'] := .of .zero (.digits hfraction) .absent
  unfold text
  split
  next => exact hzero
  next h =>
    rcases shortest_cases h with hdigits | hshortest
    · obtain ⟨first, rest, hsignificant, hfirst, hisDigit⟩ :=
        Decimal.exists_significant_cons hdigits
      simp only [hsignificant]
      exact Json.isUnsigned_decimalText hisDigit hfirst _
    · rw [hshortest]
      exact hzero

end Magnitude

theorem Binary64.isNumber_text (negative : Bool) (m : Magnitude) :
    Json.IsNumber (Binary64.finite negative m).text := by
  cases negative with
  | false => exact .plain m.isUnsigned_text
  | true => exact .negative m.isUnsigned_text

end LogContext
