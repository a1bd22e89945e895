import Lexis.Text.Lines

/-! Bytes as text: decoding as a whole, and line by line so that one bad line leaves the others
readable. -/

namespace Lexis.Text

/-- The text that bytes encode in UTF-8, if they encode one. -/
def decode? (bytes : List UInt8) : Option String :=
  String.fromUTF8? ⟨bytes.toArray⟩

/-- The lines of a byte sequence, each with the line feed that ends it. -/
def byteLines (bytes : List UInt8) : List (List UInt8) :=
  cutAfter (· == 0x0a) bytes

end Lexis.Text
