import Lexis.Diagnostic
import Lexis.Report.TabStops
import Lexis.Text.Padding
import Lexis.Text.WhiteSpace

/-! Diagnostics as they are shown: a title, the file, and the line with a caret under the place. -/

namespace Lexis

namespace Problem

def title (p : Problem) : String :=
  match p.tip? with
  | none => p.name
  | some tip => p.name ++ " (" ++ tip ++ ")"

end Problem

namespace Diagnostic

/-- The bar below the line number, one blank after its last digit. -/
def margin (d : Diagnostic) : String :=
  Text.padLeft ' ' ((toString d.position.line).length + 2) "|"

def heading (d : Diagnostic) (file : String) : String :=
  "Error: " ++ d.problem.title ++ "\n-> " ++ file ++ "\n" ++ d.margin ++ "\n"

/-- Dashes that lead to a caret at a column. -/
def pointer (column : Nat) : Except Fault String :=
  match addWords column 1 with
  | .error fault => .error fault
  | .ok width =>
    if width ≤ widthLimit then .ok (Text.padLeft '-' width "^") else .error .widthTooLarge

/-- The line without tabs, indentation and white space at its end, above a caret at the column of
the diagnostic. -/
def excerpt (d : Diagnostic) (line : String) : Except Fault String :=
  let expansion := TabStops.expand line.toList
  let chars := expansion.chars.toList
  let indent := (chars.takeWhile (· == ' ')).length
  match expansion.displayColumn d.position.column with
  | .error fault => .error fault
  | .ok column => (pointer (column - indent)).map fun caret =>
    toString d.position.line ++ " | "
      ++ String.ofList (Text.trimEnd (chars.dropWhile (· == ' '))) ++ "\n"
      ++ d.margin ++ " " ++ caret ++ "\n"

/-- The diagnostic as it is shown, with the text of its line if that is known. -/
def render (d : Diagnostic) (file : String) (line? : Option String) : Except Fault String :=
  match line? with
  | none => .ok (d.heading file)
  | some line => (d.excerpt line).map (d.heading file ++ ·)

end Diagnostic
end Lexis
