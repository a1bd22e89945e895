import Lexis.Source.LineReader

/-! Files as far as a reader of source texts sees them. -/

namespace Lexis

inductive Entry where
  | file (bytes : List UInt8)
  | directory
deriving DecidableEq, Repr

namespace Entry

def reader : Entry → LineReader
  | .file bytes => .ofBytes bytes
  | .directory => .ofDirectory

/-- The whole text of a file. One undecodable line makes all of it unreadable. -/
def text : Entry → Except Failure String
  | .file bytes =>
    match Text.decode? bytes with
    | some decoded => .ok decoded
    | none => .error .notUtf8
  | .directory => .error .isADirectory

end Entry

/-- What opening a path gives. -/
abbrev Files := String → Except Failure Entry

namespace Files

def text (files : Files) (path : String) : Except Failure String :=
  match files path with
  | .ok entry => entry.text
  | .error failure => .error failure

/-- A line of a file, counted from 1, without its ending. -/
def lineAt (files : Files) (path : String) (n : Nat) : Except Failure (Option String) :=
  (files.text path).map (Text.lineAt? · n)

end Files
end Lexis
