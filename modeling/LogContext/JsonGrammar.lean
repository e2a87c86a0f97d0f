import LogContext.JsonReader

namespace LogContext

namespace Json

/-- One decimal digit or more. -/
inductive IsDigits : List Char → Prop where
  | of {first : Char} {rest : List Char} (hfirst : first.isDigit = true)
      (hrest : ∀ c ∈ rest, c.isDigit = true) : IsDigits (first :: rest)

/-- A whole number does not start with a zero unless it is zero. -/
inductive IsWhole : List Char → Prop where
  | zero : IsWhole ['0']
  | digits {first : Char} {rest : List Char} (hdigits : IsDigits (first :: rest))
      (hzero : first ≠ '0') : IsWhole (first :: rest)

inductive IsFraction : List Char → Prop where
  | absent : IsFraction []
  | digits {digits : List Char} (hdigits : IsDigits digits) : IsFraction ('.' :: digits)

inductive IsPower : List Char → Prop where
  | absent : IsPower []
  | plain {mark : Char} {digits : List Char} (hmark : mark = 'e' ∨ mark = 'E')
      (hdigits : IsDigits digits) : IsPower (mark :: digits)
  | signed {mark sign : Char} {digits : List Char} (hmark : mark = 'e' ∨ mark = 'E')
      (hsign : sign = '+' ∨ sign = '-') (hdigits : IsDigits digits) :
      IsPower (mark :: sign :: digits)

inductive IsUnsigned : List Char → Prop where
  | of {whole fraction power : List Char} (hwhole : IsWhole whole)
      (hfraction : IsFraction fraction) (hpower : IsPower power) :
      IsUnsigned (whole ++ (fraction ++ power))

inductive IsNumber : List Char → Prop where
  | plain {text : List Char} (hunsigned : IsUnsigned text) : IsNumber text
  | negative {text : List Char} (hunsigned : IsUnsigned text) : IsNumber ('-' :: text)

/-- A character of a string as it is written: by itself, by a letter, or by a UTF-16 unit. -/
inductive IsCharacter : List Char → Prop where
  | plain {c : Char} (hcontrol : ' ' ≤ c) (hquote : c ≠ '"') (hbackslash : c ≠ '\\') :
      IsCharacter [c]
  | letter {c : Char} (hletter : c ∈ ['"', '\\', '/', 'b', 'f', 'n', 'r', 't']) :
      IsCharacter ['\\', c]
  | unit {digits : List Char} (hlength : digits.length = 4)
      (hdigits : ∀ c ∈ digits, (hexDigit? c).isSome = true) : IsCharacter ('\\' :: 'u' :: digits)

inductive IsString : List Char → Prop where
  | of {characters : List (List Char)} (hcharacters : ∀ text ∈ characters, IsCharacter text) :
      IsString ('"' :: (characters.flatten ++ ['"']))

def IsBlank (text : List Char) : Prop := ∀ c ∈ text, isBlank c = true

/-- What holds other values between brackets. -/
inductive Bracket where
  | array
  | object
  deriving DecidableEq, Repr

namespace Bracket

def opening : Bracket → Char
  | .array => '['
  | .object => '\x7b'

def closing : Bracket → Char
  | .array => ']'
  | .object => '\x7d'

end Bracket

def words : List (List Char) := ["null".toList, "true".toList, "false".toList]

/-- What the rules of the grammar are about: a value, a value with blanks around it, an entry of an
array or an object, and all entries of one. -/
inductive Symbol where
  | value
  | text
  | entry (b : Bracket)
  | entries (b : Bracket)

/-- The grammar of JSON texts, a case for each of its rules. -/
inductive Derives : Symbol → List Char → Prop where
  | word {text : List Char} (hword : text ∈ words) : Derives .value text
  | number {text : List Char} (hnumber : IsNumber text) : Derives .value text
  | string {text : List Char} (hstring : IsString text) : Derives .value text
  | empty {b : Bracket} {blanks : List Char} (hblanks : IsBlank blanks) :
      Derives .value (b.opening :: (blanks ++ [b.closing]))
  | filled {b : Bracket} {text : List Char} (hentries : Derives (.entries b) text) :
      Derives .value (b.opening :: (text ++ [b.closing]))
  | text {before value after : List Char} (hbefore : IsBlank before)
      (hvalue : Derives .value value) (hafter : IsBlank after) :
      Derives .text (before ++ (value ++ after))
  | item {text : List Char} (htext : Derives .text text) : Derives (.entry .array) text
  | field {before key between text : List Char} (hbefore : IsBlank before) (hkey : IsString key)
      (hbetween : IsBlank between) (htext : Derives .text text) :
      Derives (.entry .object) (before ++ (key ++ (between ++ ':' :: text)))
  | last {b : Bracket} {text : List Char} (hentry : Derives (.entry b) text) :
      Derives (.entries b) text
  | more {b : Bracket} {text rest : List Char} (hentry : Derives (.entry b) text)
      (hrest : Derives (.entries b) rest) : Derives (.entries b) (text ++ ',' :: rest)

/-- A JSON text is a value with blanks around it. -/
def IsText (text : List Char) : Prop := Derives .text text

end Json

end LogContext
