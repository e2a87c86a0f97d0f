namespace LogContext

/-- First and last code point of each run of white space characters. -/
def blankRanges : List (Nat × Nat) :=
  [(0x09, 0x0d), (0x1c, 0x20), (0x85, 0x85), (0xa0, 0xa0), (0x1680, 0x1680), (0x2000, 0x200a),
    (0x2028, 0x2029), (0x202f, 0x202f), (0x205f, 0x205f), (0x3000, 0x3000)]

def isBlankChar (c : Char) : Bool :=
  blankRanges.any fun range => range.1 ≤ c.toNat && c.toNat ≤ range.2

/-- A name of white space only names nothing. -/
def isBlank (name : String) : Bool := name.toList.all isBlankChar

/-- A missing name is as unusable as a blank one. -/
def isUsable : Option String → Bool
  | none => false
  | some name => !isBlank name

end LogContext
