/-! Limits of the numbers that positions and padding are made of. Going beyond one stops the
computation. -/

namespace Lexis

inductive Fault where
  /-- A sum does not fit into a machine word. -/
  | sumTooLarge
  /-- A text would be padded to a width that is not supported. -/
  | widthTooLarge
deriving DecidableEq, Repr

namespace Fault

def message : Fault → String
  | .sumTooLarge => "attempt to add with overflow"
  | .widthTooLarge => "Formatting argument out of range"

end Fault

/-- One more than the largest machine word. -/
def wordLimit : Nat := 0x10000000000000000

/-- The largest width that a text can be padded to. -/
def widthLimit : Nat := 65535

/-- The sum of two words, if it is a word. -/
def addWords (a b : Nat) : Except Fault Nat :=
  if a + b < wordLimit then .ok (a + b) else .error .sumTooLarge

end Lexis
