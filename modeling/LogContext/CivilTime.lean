import LogContext.ShortestDecimal

namespace LogContext

open BuiltinPower

/-- A time of the proleptic Gregorian calendar, UTC, to the microsecond. -/
structure CivilTime where
  year : Int
  month : Nat
  day : Nat
  hour : Nat
  minute : Nat
  second : Nat
  micro : Nat
  deriving DecidableEq, Repr

inductive TimeError where
  | notAFloat
  | outsideClock
  | outsideCalendar
  | yearOutside (year : Int)
  deriving DecidableEq, Repr

def TimeError.message : TimeError → String
  | .notAFloat => "int too large to convert to float"
  | .outsideClock => "timestamp out of range for platform time_t"
  | .outsideCalendar => "[Errno 75] Value too large for defined data type"
  | .yearOutside year => "year " ++ String.ofList (intDigits year) ++ " is out of range"

/-- Whole seconds since 1970 and the microseconds that follow them. -/
structure Instant where
  seconds : Int
  micros : Nat
  deriving DecidableEq, Repr

namespace Instant

/-- Seconds as the binary64 quotient of the binary64 number nearest to the nanoseconds. -/
def secondsOf? (nanoseconds : Nat) : Option Magnitude :=
  (Magnitude.nearest? nanoseconds 1).bind fun m =>
    Magnitude.nearest? m.units (Magnitude.unitsPerOne * 10 ^ (9 : Nat))

/-- The part of a number of seconds below one, in microseconds: first the product is rounded to
binary64, then to a whole number. -/
def microsOf (seconds : Magnitude) : Nat :=
  let part := seconds.units % Magnitude.unitsPerOne
  match Magnitude.nearest? (part * 10 ^ (6 : Nat)) Magnitude.unitsPerOne with
  | some product => Magnitude.roundDiv product.units Magnitude.unitsPerOne
  | none => 0

/-- Microseconds are counted forward from a whole second, also before 1970. -/
def normalize (negative : Bool) (whole micros : Nat) : Instant :=
  if negative then
    if micros = 0 then ⟨-(whole : Int), 0⟩ else ⟨-(whole : Int) - 1, 10 ^ (6 : Nat) - micros⟩
  else if micros < 10 ^ (6 : Nat) then ⟨whole, micros⟩
  else ⟨(whole : Int) + 1, micros - 10 ^ (6 : Nat)⟩

/-- The clock counts seconds in 64 bits. The test is made in binary64, where the largest count
becomes `2 ^ 63`. -/
def ofNanoseconds (nanoseconds : Int) : Except TimeError Instant :=
  match secondsOf? nanoseconds.natAbs with
  | none => .error .notAFloat
  | some seconds =>
    let instant := normalize (nanoseconds < 0) (seconds.units / Magnitude.unitsPerOne)
      (microsOf seconds)
    if instant.seconds < -2 ^ (63 : Nat) ∨ 2 ^ (63 : Nat) < instant.seconds then
      .error .outsideClock
    else .ok instant

end Instant

/-- Days since 1970 as year, month and day. Years are counted from March, in eras of 400 years. -/
def civilDay (days : Int) : Int × Nat × Nat :=
  let shifted := days + 719468
  let era := shifted.fdiv 146097
  let dayOfEra := (shifted.fmod 146097).toNat
  let yearOfEra := (dayOfEra - dayOfEra / 1460 + dayOfEra / 36524 - dayOfEra / 146096) / 365
  let dayOfYear := dayOfEra - (365 * yearOfEra + yearOfEra / 4 - yearOfEra / 100)
  let marchMonth := (5 * dayOfYear + 2) / 153
  let day := dayOfYear - (153 * marchMonth + 2) / 5 + 1
  let month := if marchMonth < 10 then marchMonth + 3 else marchMonth - 9
  (yearOfEra + era * 400 + (if month ≤ 2 then 1 else 0), month, day)

namespace CivilTime

def ofInstant (instant : Instant) : CivilTime :=
  let (year, month, day) := civilDay (instant.seconds.fdiv 86400)
  let second := (instant.seconds.fmod 86400).toNat
  ⟨year, month, day, second / 3600, second / 60 % 60, second % 60, instant.micros⟩

/-- The calendar counts years from 1900 in 32 bits, names them in 32 bits and writes four digits. -/
def check (time : CivilTime) : Except TimeError CivilTime :=
  if time.year - 1900 < -2 ^ (31 : Nat) ∨ 2 ^ (31 : Nat) ≤ time.year - 1900 then
    .error .outsideCalendar
  else if 1 ≤ time.year ∧ time.year ≤ 9999 then .ok time
  else .error (.yearOutside (time.year.bmod (2 ^ (32 : Nat))))

def ofNanoseconds (nanoseconds : Int) : Except TimeError CivilTime := do
  check (ofInstant (← Instant.ofNanoseconds nanoseconds))

def pad2 (n : Nat) : List Char := padLeft 2 '0' (natDigits n)

/-- What follows the year, to the second. -/
def sinceYear (time : CivilTime) : List Char :=
  '-' :: pad2 time.month ++ '-' :: pad2 time.day ++ 'T' :: pad2 time.hour ++
    ':' :: pad2 time.minute ++ ':' :: pad2 time.second

/-- To the second; the year has as many digits as it needs. -/
def toSecondText (time : CivilTime) : List Char :=
  natDigits time.year.toNat ++ time.sinceYear ++ ['Z']

/-- With six digits for the microseconds, or none if there are none; the year has four digits. -/
def toMicroText (time : CivilTime) : List Char :=
  padLeft 4 '0' (natDigits time.year.toNat) ++ time.sinceYear ++
    (if time.micro = 0 then [] else '.' :: padLeft 6 '0' (natDigits time.micro)) ++
    ['+', '0', '0', ':', '0', '0']

end CivilTime

end LogContext
