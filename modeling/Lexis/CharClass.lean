import Lexis.Text.Alphabetic
import Lexis.Text.Numeric

/-! The character classes that lexemes are made of. -/

namespace Lexis.CharClass

/-- Vertical tab and form feed count as blanks alongside the usual four. -/
def isBlank (c : Char) : Bool :=
  c == ' ' || c == '\t' || c == '\n' || c == '\r' || c == '\x0b' || c == '\x0c'

def isIdentifierStart (c : Char) : Bool :=
  Text.isAlphabetic c || c == '_' || c == '$'

def isIdentifierPart (c : Char) : Bool :=
  Text.isAlphabetic c || Text.isNumeric c || c == '_' || c == '$'

/-- Only the ten ASCII digits make numbers. -/
def isDigit (c : Char) : Bool := c.isDigit

end Lexis.CharClass
