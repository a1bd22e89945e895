/-! Places in a source text. -/

namespace Lexis

/-- A line counted from 1 and a column counted from 0. Line 0 stands before any text. -/
structure Position where
  line : Nat
  column : Nat
deriving DecidableEq, Repr

namespace Position

/-- Where a source stands before its first character. -/
def start : Position := ⟨0, 0⟩

end Position

structure Glyph where
  char : Char
  position : Position
deriving DecidableEq, Repr

end Lexis
