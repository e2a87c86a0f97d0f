namespace LogContext

/-- The name of the argument that a call is made on. -/
def receiverName : String := "self"

/-- A call that takes some arguments by place and all others by name. -/
structure CallShape where
  name : String
  placed : List String
  deriving DecidableEq, Repr

namespace CallShape

/-- The first name that gives an argument which its place gives already. -/
def repeated? (shape : CallShape) (names : List String) : Option String :=
  names.find? shape.placed.contains

theorem repeated?_eq_none_iff (shape : CallShape) (names : List String) :
    shape.repeated? names = none ↔ ∀ name ∈ names, name ∉ shape.placed := by
  simp [repeated?]

end CallShape

end LogContext
