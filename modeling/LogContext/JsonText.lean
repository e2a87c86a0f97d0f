import LogContext.Value

namespace LogContext

/-- A code point in the escape of one UTF-16 unit. -/
def unitEscape (unit : Nat) : List Char := '\\' :: 'u' :: hexDigits 4 unit

/-- The UTF-16 units of a code point: two for a code point beyond the first plane. -/
def utf16Units (code : Nat) : List Nat :=
  if code < 0x10000 then [code]
  else [0xd800 + (code - 0x10000) / 0x400, 0xdc00 + (code - 0x10000) % 0x400]

/-- Only visible ASCII and the space stand for themselves in a JSON string. -/
def jsonChar (c : Char) : List Char :=
  if c = '"' then ['\\', '"']
  else if c = '\\' then ['\\', '\\']
  else if c = '\n' then ['\\', 'n']
  else if c = '\r' then ['\\', 'r']
  else if c = '\t' then ['\\', 't']
  else if c = '\x08' then ['\\', 'b']
  else if c = '\x0c' then ['\\', 'f']
  else if ' ' ≤ c ∧ c ≤ '~' then [c]
  else (utf16Units c.toNat).flatMap unitEscape

def jsonString (text : List Char) : List Char := '"' :: (text.flatMap jsonChar ++ ['"'])

def jsonFloat : Binary64 → List Char
  | .nan => "NaN".toList
  | .infinite negative => if negative then "-Infinity".toList else "Infinity".toList
  | x => x.text

def jsonField (key : String) (value : List Char) : List Char :=
  jsonString key.toList ++ ": ".toList ++ value

def jsonObject (fields : List (List Char)) : List Char :=
  '\x7b' :: (commaJoin fields ++ ['\x7d'])

def jsonArray (items : List (List Char)) : List Char := '[' :: (commaJoin items ++ [']'])

namespace Value

mutual

/-- A value as JSON text on one line; what JSON does not know becomes the string of its plain
text. -/
def json : Value → List Char
  | .null => "null".toList
  | .bool true => "true".toList
  | .bool false => "false".toList
  | .int n => intDigits n
  | .float x => jsonFloat x
  | .text s => jsonString s.toList
  | .list items | .tuple items => jsonArray (jsonItems items)
  | .object fields => jsonObject (jsonFields fields)
  | .marker => jsonString (plain .marker)
  | .role r => jsonString (plain (.role r))
  | .execution e => jsonString (plain (.execution e))

def jsonItems : List Value → List (List Char)
  | [] => []
  | value :: rest => value.json :: jsonItems rest

def jsonFields : List (String × Value) → List (List Char)
  | [] => []
  | (key, value) :: rest => jsonField key value.json :: jsonFields rest

end

end Value

end LogContext
