namespace LogContext

/-- What one section remembers of one property: a text, or that the property was set to nothing. -/
inductive Frame where
  | null
  | text (value : String)
  deriving DecidableEq, Repr

namespace Frame

/-- A property without frames and one whose innermost frame is null look the same. -/
def isNull : Option Frame → Bool
  | some (.text _) => false
  | _ => true

/-- Whether setting a property to `incoming` leaves the innermost frame `current` as it is. -/
def agrees (current incoming : Option Frame) : Bool :=
  if isNull current then incoming.isNone else current == incoming

/-- The frame that is pushed for a value. -/
def ofIncoming (incoming : Option Frame) : Frame := incoming.getD .null

def value? : Option Frame → Option String
  | some (.text value) => some value
  | _ => none

def ofValue (value : Option String) : Frame := ofIncoming (value.map .text)

theorem value?_ofValue (value : Option String) : value? (some (ofValue value)) = value := by
  cases value <;> rfl

/-- Nothing is pushed exactly when the property already has the value. -/
theorem agrees_iff_value? (current : Option Frame) (value : Option String) :
    agrees current (value.map .text) = true ↔ value? current = value := by
  cases current with
  | none => cases value <;> simp [agrees, isNull, value?]
  | some frame => cases frame <;> cases value <;> simp [agrees, isNull, value?]

end Frame

end LogContext
