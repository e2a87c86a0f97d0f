import LogContext.Binary64

namespace LogContext

open BuiltinPower

def natDigits (n : Nat) : List Char := Nat.toDigits 10 n

/-- An integer of any size has digits. The limit of 4300 digits, which the conversion of an integer to
text has by default, is left out. -/
def intDigits (n : Int) : List Char :=
  if n < 0 then '-' :: natDigits n.natAbs else natDigits n.natAbs

def padLeft (width : Nat) (fill : Char) (text : List Char) : List Char :=
  List.replicate (width - text.length) fill ++ text

/-- `digits` with a decimal point in front of them, times ten to the power `point`. -/
structure Decimal where
  digits : Nat
  length : Nat
  point : Int
  deriving DecidableEq, Repr

namespace Magnitude

/-- Four times the least and the largest number of units that are rounded to this number: the
neighbour below is nearer where the binary exponent drops. -/
def interval (m : Magnitude) : Nat × Nat :=
  let half := 2 * 2 ^ m.shift
  let below := if m.mantissa = 2 ^ (52 : Nat) ∧ m.shift ≠ 0 then 2 ^ m.shift else half
  (4 * m.units - below, 4 * m.units + half)

/-- Whether `digits * 10 ^ exponent` is rounded to this number; the ends of the interval count when
the mantissa is even. -/
def readsBack (m : Magnitude) (digits : Nat) (exponent : Int) : Bool :=
  let value := digits * 10 ^ exponent.toNat * (4 * unitsPerOne)
  let scale := 10 ^ (-exponent).toNat
  let (low, high) := m.interval
  if m.mantissa % 2 = 0 then low * scale ≤ value && value ≤ high * scale
  else low * scale < value && value < high * scale

/-- Zeros that follow the decimal point, looked for among the first `fuel`. -/
def leadingZeros (units : Nat) : Nat → Nat → Nat
  | 0, count => count
  | fuel + 1, count =>
    if units * 10 ^ (count + 1) ≥ unitsPerOne then count
    else leadingZeros units fuel (count + 1)

/-- Where the decimal point stands: the number is below ten to this power and not below a tenth of
that. -/
def point (m : Magnitude) : Int :=
  let whole := m.units / unitsPerOne
  if whole = 0 then -(leadingZeros m.units 330 0 : Int) else ((natDigits whole).length : Int)

/-- The number in units of `10 ^ exponent`, rounded down, and whether the next one is nearer; a tie
goes to the even one. -/
def onGrid (m : Magnitude) (exponent : Int) : Nat × Bool :=
  let num := m.units * 10 ^ (-exponent).toNat
  let den := unitsPerOne * 10 ^ exponent.toNat
  let low := num / den
  (low, Magnitude.roundDiv num den ≠ low)

/-- The best decimal with `length` digits that reads back. -/
def decimalOf? (m : Magnitude) (length : Nat) : Option Decimal :=
  let exponent := m.point - length
  let (low, up) := m.onGrid exponent
  let first := if up then low + 1 else low
  let second := if up then low else low + 1
  if m.readsBack first exponent then some ⟨first, length, m.point⟩
  else if m.readsBack second exponent then some ⟨second, length, m.point⟩
  else none

/-- The fewest digits that read back, and of those the nearest; seventeen always do. -/
def shortest (m : Magnitude) : Decimal :=
  ((List.range 17).findSome? fun n => m.decimalOf? (n + 1)).getD ⟨0, 1, 1⟩

end Magnitude

/-- The digits without zeros at the end, and the place of the point; a carry into a further digit
moves it. -/
def Decimal.significant (d : Decimal) : List Char × Int :=
  let digits := natDigits d.digits
  let kept := (digits.reverse.dropWhile (· = '0')).reverse
  (kept, d.point + ((digits.length : Int) - d.length))

/-- Exponents of at least two digits, with their sign. -/
def exponentText (exponent : Int) : List Char :=
  'e' :: (if exponent < 0 then '-' else '+') :: padLeft 2 '0' (natDigits exponent.natAbs)

/-- Positional from a ten-thousandth to below `10 ^ 16`, with a digit on both sides of the point,
and with an exponent beyond. -/
def decimalText (digits : List Char) (point : Int) : List Char :=
  if point < -3 ∨ 16 < point then
    match digits with
    | [] => []
    | [d] => d :: exponentText (point - 1)
    | d :: rest => d :: '.' :: (rest ++ exponentText (point - 1))
  else if point ≤ 0 then
    '0' :: '.' :: (List.replicate (-point).toNat '0' ++ digits)
  else if digits.length ≤ point.toNat then
    digits ++ List.replicate (point.toNat - digits.length) '0' ++ ['.', '0']
  else
    digits.take point.toNat ++ '.' :: digits.drop point.toNat

def Magnitude.text (m : Magnitude) : List Char :=
  if m.mantissa = 0 then ['0', '.', '0']
  else
    let (digits, point) := m.shortest.significant
    decimalText digits point

/-- The shortest decimal that reads back as the same number. -/
def Binary64.text : Binary64 → List Char
  | .nan => ['n', 'a', 'n']
  | .infinite negative => if negative then ['-', 'i', 'n', 'f'] else ['i', 'n', 'f']
  | .finite negative m => if negative then '-' :: m.text else m.text

/-- The digits at the start of a text, and the rest. -/
def spanDigits : List Char → List Char × List Char
  | [] => ([], [])
  | c :: rest =>
    if c.isDigit then ((spanDigits rest).map (c :: ·) id) else ([], c :: rest)

def digitsValue (digits : List Char) : Nat :=
  digits.foldl (fun n c => 10 * n + (c.toNat - '0'.toNat)) 0

def signed (text : List Char) : Bool × List Char :=
  match text with
  | '-' :: rest => (true, rest)
  | '+' :: rest => (false, rest)
  | rest => (false, rest)

def readExponent? : List Char → Option Int
  | [] => some 0
  | c :: rest =>
    if c = 'e' ∨ c = 'E' then
      let (negative, rest) := signed rest
      match spanDigits rest with
      | (d :: digits, []) =>
        let value : Int := digitsValue (d :: digits)
        some (if negative then -value else value)
      | _ => none
    else none

def readUnsigned? (negative : Bool) (text : List Char) : Option Binary64 :=
  let (whole, rest) := spanDigits text
  let (part, rest) := match rest with
    | '.' :: rest => spanDigits rest
    | rest => ([], rest)
  if whole.isEmpty && part.isEmpty then none
  else (readExponent? rest).map fun exponent =>
    .ofDecimal negative (digitsValue (whole ++ part)) (exponent - part.length)

/-- The long and the short name of an infinity. -/
def infinityNames : List (List Char) := ["inf".toList, "infinity".toList]

/-- Reads a decimal, or the name of an infinity or of nan in letters of either case. -/
def Binary64.read? (text : List Char) : Option Binary64 :=
  let (negative, rest) := signed text
  let name := rest.map Char.toLower
  if name = "nan".toList then some .nan
  else if infinityNames.contains name then some (.infinite negative)
  else readUnsigned? negative rest

end LogContext
