namespace LogContext

namespace BuiltinPower

-- The powers of the core library; other libraries bring instances of their own.
scoped instance (priority := 2000) natPow : Pow Nat Nat := instPowNat

scoped instance (priority := 2000) intPow : Pow Int Nat := instPowNat

end BuiltinPower

open BuiltinPower

/-- A finite binary64 number without its sign: `mantissa * 2 ^ shift` times the least positive
number, which is `2 ^ (-1074)`. Each number has one form: the mantissa has 53 binary digits, or
fewer if it cannot be shifted. -/
structure Magnitude where
  mantissa : Nat
  shift : Nat
  mantissa_lt : mantissa < 2 ^ (53 : Nat)
  full_of_shifted : shift = 0 ∨ 2 ^ (52 : Nat) ≤ mantissa
  shift_le : shift ≤ 2045
  deriving DecidableEq, Repr

namespace Magnitude

def zero : Magnitude := ⟨0, 0, by decide, Or.inl rfl, by decide⟩

/-- So many times the least positive number make one. -/
def unitsPerOne : Nat := 2 ^ (1074 : Nat)

def units (m : Magnitude) : Nat := m.mantissa * 2 ^ m.shift

/-- Division to the nearest natural number; a half goes to the even neighbour. -/
def roundDiv (num den : Nat) : Nat :=
  let low := num / den
  let rest := num % den
  if den < 2 * rest ∨ (den = 2 * rest ∧ low % 2 = 1) then low + 1 else low

theorem div_le_roundDiv (num den : Nat) : num / den ≤ roundDiv num den := by
  simp only [roundDiv]
  split <;> omega

theorem roundDiv_le (num den : Nat) : roundDiv num den ≤ num / den + 1 := by
  simp only [roundDiv]
  split <;> omega

/-- How far a number has to be shifted to leave 53 binary digits. -/
def shiftFor (whole : Nat) : Nat :=
  if whole = 0 then 0 else whole.log2 + 1 - 53

theorem shifted_lt (whole : Nat) : whole / 2 ^ shiftFor whole < 2 ^ (53 : Nat) := by
  unfold shiftFor
  split
  next h => simp [h]
  next h =>
    rw [Nat.div_lt_iff_lt_mul (Nat.two_pow_pos _), ← Nat.pow_add]
    exact Nat.lt_of_lt_of_le Nat.lt_log2_self (Nat.pow_le_pow_right (by decide) (by omega))

theorem full_of_shiftFor {whole : Nat} (h : shiftFor whole ≠ 0) :
    2 ^ (52 : Nat) ≤ whole / 2 ^ shiftFor whole := by
  unfold shiftFor at h ⊢
  split at h
  next => exact absurd rfl h
  next hw =>
    rw [if_neg hw, Nat.le_div_iff_mul_le (Nat.two_pow_pos _), ← Nat.pow_add]
    exact Nat.le_trans (Nat.pow_le_pow_right (by decide) (by omega)) (Nat.log2_self_le hw)

/-- Mantissa and shift of a quotient of units; rounding up may fill one binary digit more. -/
def rounded (num den : Nat) : Nat × Nat :=
  let shift := shiftFor (num / den)
  let mantissa := roundDiv num (den * 2 ^ shift)
  if mantissa = 2 ^ (53 : Nat) then (2 ^ (52 : Nat), shift + 1) else (mantissa, shift)

theorem rounded_fits (num den : Nat) :
    (rounded num den).1 < 2 ^ (53 : Nat) ∧
      ((rounded num den).2 = 0 ∨ 2 ^ (52 : Nat) ≤ (rounded num den).1) := by
  have hlt := shifted_lt (num / den)
  have hle := roundDiv_le num (den * 2 ^ shiftFor (num / den))
  have hge := div_le_roundDiv num (den * 2 ^ shiftFor (num / den))
  rw [← Nat.div_div_eq_div_mul] at hle hge
  simp only [rounded]
  split
  next =>
    refine ⟨?_, Or.inr (Nat.le_refl _)⟩
    show 2 ^ (52 : Nat) < 2 ^ (53 : Nat)
    decide
  next h =>
    refine ⟨by omega, ?_⟩
    by_cases hz : shiftFor (num / den) = 0
    · exact Or.inl hz
    · exact Or.inr (Nat.le_trans (full_of_shiftFor hz) hge)

/-- The nearest number to a quotient; none if it lies beyond the largest. -/
def nearest? (num den : Nat) : Option Magnitude :=
  let scaled := num * unitsPerOne
  if h : (rounded scaled den).2 ≤ 2045 then
    some ⟨_, _, (rounded_fits scaled den).1, (rounded_fits scaled den).2, h⟩
  else none

end Magnitude

inductive Binary64 where
  | finite (negative : Bool) (magnitude : Magnitude)
  | infinite (negative : Bool)
  | nan
  deriving DecidableEq, Repr

namespace Binary64

/-- Too large a quotient becomes infinite. -/
def ofQuotient (negative : Bool) (num den : Nat) : Binary64 :=
  match Magnitude.nearest? num den with
  | some magnitude => .finite negative magnitude
  | none => .infinite negative

/-- `digits` times the power of ten with the given exponent. Far below the least positive number and
far above the largest one the power itself is not needed. -/
def ofDecimal (negative : Bool) (digits : Nat) (exponent : Int) : Binary64 :=
  if digits = 0 ∨ exponent + digits.log2 < -400 then .finite negative .zero
  else if 400 < exponent then .infinite negative
  else ofQuotient negative (digits * 10 ^ exponent.toNat) (10 ^ (-exponent).toNat)

end Binary64

end LogContext
