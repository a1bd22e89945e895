import Lexis.Fault

/-! Lines with their tabs written out as spaces up to the next tab stop. -/

namespace Lexis.TabStops

def tabWidth : Nat := 4

/-- A line without tabs, and for each character of the line before the expansion the column it
starts at. -/
structure Expansion where
  chars : Array Char
  columns : Array Nat

namespace Expansion

def empty : Expansion := ⟨#[], #[]⟩

/-- Appends a character. A tab fills up to the next stop, with at least one space. -/
def put : Expansion → Char → Expansion
  | ⟨chars, columns⟩, '\t' =>
    let start := chars.size
    ⟨chars ++ Array.replicate (tabWidth - start % tabWidth) ' ', columns.push start⟩
  | ⟨chars, columns⟩, c =>
    let start := chars.size
    ⟨chars.push c, columns.push start⟩

end Expansion

def expand (line : List Char) : Expansion := line.foldl Expansion.put .empty

/-- Where a column of the line is shown. Columns past the end of the line go on past the end of the
expansion. -/
def Expansion.displayColumn (e : Expansion) (column : Nat) : Except Fault Nat :=
  (addWords e.chars.size (column - e.columns.size)).map fun pastEnd =>
    e.columns[column]?.getD pastEnd

end Lexis.TabStops
