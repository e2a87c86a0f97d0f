import LogContext.JsonReader

namespace LogContext

namespace Literal

/-- The character with a code point in hexadecimal digits; surrogates are none. -/
def codePoint? (digits : List Char) : Option Char :=
  (Json.hexValue? digits).bind fun code =>
    if code.isValidChar then some (Char.ofNat code) else none

/-- The character that a single letter after a backslash stands for. -/
def letterEscape? (letter : Char) : Option Char :=
  if letter = '\\' ∨ letter = '\'' ∨ letter = '"' then some letter
  else if letter = 'n' then some '\n'
  else if letter = 'r' then some '\r'
  else if letter = 't' then some '\t'
  else if letter = 'a' then some '\x07'
  else if letter = 'b' then some '\x08'
  else if letter = 'v' then some '\x0b'
  else if letter = 'f' then some '\x0c'
  else none

/-- A character, if there is one, in front of what was read after it. -/
def inFront (c : Option Char) (read : Option (List Char × List Char)) :
    Option (List Char × List Char) :=
  c.bind fun c => read.map (Prod.map (c :: ·) id)

/-- What a literal says up to the mark that closes it, and the rest. A literal is on one line. An escape
has a letter, or `x`, `u` or `U` and a code point of two, four or eight digits. -/
def readInside? (mark : Char) : List Char → Option (List Char × List Char)
  | [] => none
  | '\\' :: 'x' :: a :: b :: rest => inFront (codePoint? [a, b]) (readInside? mark rest)
  | '\\' :: 'u' :: a :: b :: c :: d :: rest =>
    inFront (codePoint? [a, b, c, d]) (readInside? mark rest)
  | '\\' :: 'U' :: a :: b :: c :: d :: e :: f :: g :: h :: rest =>
    inFront (codePoint? [a, b, c, d, e, f, g, h]) (readInside? mark rest)
  | '\\' :: letter :: rest => inFront (letterEscape? letter) (readInside? mark rest)
  | c :: rest =>
    if c = mark then some ([], rest)
    else if c = '\\' ∨ c = '\n' ∨ c = '\r' then none
    else inFront (some c) (readInside? mark rest)

/-- The text that a literal in single or double quotes stands for; nothing may follow it. -/
def read? : List Char → Option (List Char)
  | [] => none
  | mark :: inside =>
    if mark = '\'' ∨ mark = '"' then
      (readInside? mark inside).bind fun (text, rest) => if rest = [] then some text else none
    else none

end Literal

end LogContext
