import Lexis.Text.Lines
import Lexis.Text.Padding

/-! Texts with numbered lines. -/

namespace Lexis

namespace Listing

def numberWidth (lines : List String) : Nat := (toString (max lines.length 1)).length

/-- A line behind its number, which is aligned to the right. -/
def row (width number : Nat) (line : String) : String :=
  Text.padLeft ' ' width (toString number) ++ " | " ++ line ++ "\n"

end Listing

/-- Every line of a text behind its number. -/
def listing (text : String) : String :=
  let lines := Text.lines text
  let width := Listing.numberWidth lines
  String.join (lines.mapIdx fun i line => Listing.row width (i + 1) line)

end Lexis
