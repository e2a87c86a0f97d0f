import LogContext.ShortestDecimal

namespace LogContext

/-- What a JSON text says. A number is a coefficient times a power of ten; the fields of an object
are in the order in which they are written. -/
inductive Json where
  | null
  | bool (b : Bool)
  | number (coefficient exponent : Int)
  | string (text : String)
  | array (items : List Json)
  | object (fields : List (String × Json))
  deriving Repr

namespace Json

def isBlank (c : Char) : Bool := c = ' ' || c = '\t' || c = '\n' || c = '\r'

def skipBlanks (text : List Char) : List Char := text.dropWhile isBlank

/-- At least one digit, and the rest. -/
def readDigits? (text : List Char) : Option (List Char × List Char) :=
  match spanDigits text with
  | ([], _) => none
  | (d :: digits, rest) => some (d :: digits, rest)

/-- A whole number does not start with a zero unless it is zero. -/
def readWhole? (text : List Char) : Option (List Char × List Char) :=
  match text with
  | '0' :: rest => some (['0'], rest)
  | text => readDigits? text

def readFraction? (text : List Char) : Option (List Char × List Char) :=
  match text with
  | '.' :: rest => readDigits? rest
  | text => some ([], text)

def readPower? (text : List Char) : Option (Int × List Char) :=
  match text with
  | [] => some (0, [])
  | c :: rest =>
    if c = 'e' ∨ c = 'E' then do
      let (negative, rest) := signed rest
      let (digits, rest) ← readDigits? rest
      let power : Int := digitsValue digits
      pure (if negative then -power else power, rest)
    else some (0, c :: rest)

def readUnsigned? (text : List Char) : Option (Nat × Int × List Char) := do
  let (whole, rest) ← readWhole? text
  let (part, rest) ← readFraction? rest
  let (power, rest) ← readPower? rest
  pure (digitsValue (whole ++ part), power - part.length, rest)

def readNumber? (text : List Char) : Option (Json × List Char) :=
  match text with
  | '-' :: rest => do
    let (coefficient, exponent, rest) ← readUnsigned? rest
    pure (.number (-coefficient) exponent, rest)
  | text => do
    let (coefficient, exponent, rest) ← readUnsigned? text
    pure (.number coefficient exponent, rest)

def hexDigit? (c : Char) : Option Nat :=
  if c.isDigit then some (c.toNat - '0'.toNat)
  else if 'a' ≤ c ∧ c ≤ 'f' then some (c.toNat - 'a'.toNat + 10)
  else if 'A' ≤ c ∧ c ≤ 'F' then some (c.toNat - 'A'.toNat + 10)
  else none

def hexValue? (digits : List Char) : Option Nat :=
  digits.foldlM (fun n c => (hexDigit? c).map (16 * n + ·)) 0

/-- The character that a single letter after a backslash stands for. -/
def shortEscape? (c : Char) : Option Char :=
  if c = '"' ∨ c = '\\' ∨ c = '/' then some c
  else if c = 'b' then some '\x08'
  else if c = 'f' then some '\x0c'
  else if c = 'n' then some '\n'
  else if c = 'r' then some '\r'
  else if c = 't' then some '\t'
  else none

/-- The inside of a string up to its closing quote, and the rest. Escapes stand for UTF-16 units, other
characters for themselves. -/
def readUnits? : List Char → Option (List Nat × List Char)
  | [] => none
  | '"' :: rest => some ([], rest)
  | '\\' :: 'u' :: a :: b :: c :: d :: rest => do
    let unit ← hexValue? [a, b, c, d]
    let (units, rest) ← readUnits? rest
    pure (unit :: units, rest)
  | '\\' :: c :: rest => do
    let unit ← shortEscape? c
    let (units, rest) ← readUnits? rest
    pure (unit.toNat :: units, rest)
  | c :: rest =>
    if c < ' ' ∨ c = '\\' then none
    else do
      let (units, rest) ← readUnits? rest
      pure (c.toNat :: units, rest)

def isHighSurrogate (unit : Nat) : Bool := 0xd800 ≤ unit && unit < 0xdc00

def isLowSurrogate (unit : Nat) : Bool := 0xdc00 ≤ unit && unit < 0xe000

/-- A high surrogate and the low one that follows it are one character; a surrogate alone is none. -/
def joinUnits? : List Nat → Option (List Char)
  | [] => some []
  | unit :: rest =>
    if isHighSurrogate unit then
      match rest with
      | low :: rest =>
        if isLowSurrogate low then
          (joinUnits? rest).map
            (Char.ofNat (0x10000 + (unit - 0xd800) * 0x400 + (low - 0xdc00)) :: ·)
        else none
      | [] => none
    else if isLowSurrogate unit then none
    else (joinUnits? rest).map (Char.ofNat unit :: ·)

/-- What follows the opening quote of a string. -/
def readString? (text : List Char) : Option (String × List Char) := do
  let (units, rest) ← readUnits? text
  let characters ← joinUnits? units
  pure (String.ofList characters, rest)

def readWord? (word : List Char) (value : Json) (text : List Char) : Option (Json × List Char) :=
  (word.isPrefixOf? text).map (value, ·)

/-- A key with its value, and the rest. -/
def readField? (value? : List Char → Option (Json × List Char)) (text : List Char) :
    Option ((String × Json) × List Char) :=
  match skipBlanks text with
  | '"' :: rest => do
    let (key, rest) ← readString? rest
    match skipBlanks rest with
    | ':' :: rest => do
      let (value, rest) ← value? rest
      pure ((key, value), rest)
    | _ => none
  | _ => none

mutual

/-- A value and the rest. Every call within a value has a bracket or a comma of its own, so the length
of the text is fuel enough. -/
def readValue? : Nat → List Char → Option (Json × List Char)
  | 0, _ => none
  | fuel + 1, text =>
    match skipBlanks text with
    | [] => none
    | c :: rest =>
      if c = '"' then (readString? rest).map (Prod.map .string id)
      else if c = '[' then
        match skipBlanks rest with
        | ']' :: rest => some (.array [], rest)
        | rest => (readItems? fuel rest).map (Prod.map .array id)
      else if c = '\x7b' then
        match skipBlanks rest with
        | '\x7d' :: rest => some (.object [], rest)
        | rest => (readFields? fuel rest).map (Prod.map .object id)
      else if c = 'n' then readWord? "ull".toList .null rest
      else if c = 't' then readWord? "rue".toList (.bool true) rest
      else if c = 'f' then readWord? "alse".toList (.bool false) rest
      else readNumber? (c :: rest)

/-- Items up to the end of their array, and the rest. -/
def readItems? : Nat → List Char → Option (List Json × List Char)
  | 0, _ => none
  | fuel + 1, text => do
    let (item, rest) ← readValue? fuel text
    match skipBlanks rest with
    | ',' :: rest => do
      let (items, rest) ← readItems? fuel rest
      pure (item :: items, rest)
    | ']' :: rest => pure ([item], rest)
    | _ => none

/-- Fields up to the end of their object, and the rest. -/
def readFields? : Nat → List Char → Option (List (String × Json) × List Char)
  | 0, _ => none
  | fuel + 1, text => do
    let (field, rest) ← readField? (readValue? fuel) text
    match skipBlanks rest with
    | ',' :: rest => do
      let (fields, rest) ← readFields? fuel rest
      pure (field :: fields, rest)
    | '\x7d' :: rest => pure ([field], rest)
    | _ => none

end

/-- The value that a text says if it is a JSON text, with nothing but blanks around it. -/
def decode? (text : List Char) : Option Json := do
  let (value, rest) ← readValue? text.length text
  if skipBlanks rest = [] then some value else none

end Json

end LogContext
