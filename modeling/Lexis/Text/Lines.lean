/-! A text as the lines a reader of it sees. -/

namespace Lexis.Text

/-- Cuts a list after every element that ends a piece. No piece is empty, and only the last one may
lack its end. -/
def cutAfter {α : Type} (ends : α → Bool) (xs : List α) : List (List α) :=
  xs.foldr (fun x pieces =>
    if ends x then [x] :: pieces
    else match pieces with
      | [] => [[x]]
      | piece :: rest => (x :: piece) :: rest) []

/-- A line's characters without its ending: the line feed, and one carriage return directly before
it. A line that no line feed ends keeps its carriage return. -/
def dropLineEnd (line : List Char) : List Char :=
  match line.reverse with
  | '\n' :: '\r' :: rest => rest.reverse
  | '\n' :: rest => rest.reverse
  | _ => line

def lines (text : String) : List String :=
  (cutAfter (· == '\n') text.toList).map fun line => String.ofList (dropLineEnd line)

/-- The line with a number, counted from 1. -/
def numbered? (lines : List String) : Nat → Option String
  | 0 => none
  | n + 1 => lines[n]?

def lineAt? (text : String) (n : Nat) : Option String := numbered? (lines text) n

end Lexis.Text
