/-!
# Faults

Ways in which the C code can stop instead of returning.
-/

namespace MySystem

inductive Fault where
  /-- The processor's divide error. -/
  | divideError
  /-- A null pointer is followed. -/
  | nullPointer
  /-- An array or a string is read outside its bounds. -/
  | outOfBounds
  /-- `panic(s)`, which never returns. -/
  | panic (s : String)
  /-- A loop has not ended within the turns the model allows it. -/
  | outOfTurns
  deriving DecidableEq, Repr

end MySystem
