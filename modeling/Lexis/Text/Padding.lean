/-! Texts filled up on the left. -/

namespace Lexis.Text

/-- The text with fill characters before it, up to a width. A text of that width or more stays as it
is. -/
def padLeft (fill : Char) (width : Nat) (text : String) : String :=
  String.ofList (text.toList.leftpad width fill)

end Lexis.Text
