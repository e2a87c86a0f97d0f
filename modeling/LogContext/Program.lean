namespace LogContext

/-- Steps in sequence, some of which hold further steps inside. -/
inductive Program (α β : Type) where
  | done
  | act (step : α) (rest : Program α β)
  | block (head : β) (body rest : Program α β)
  deriving Repr

end LogContext
