import Lexis.Diagnostic
import Lexis.Failure
import Lexis.Token

/-! What is logged while a source is turned into tokens. -/

namespace Lexis

inductive LogLevel where
  | trace | debug | info | warn | error
deriving DecidableEq, Repr

namespace LogLevel

def name : LogLevel → String
  | .trace => "TRACE"
  | .debug => "DEBUG"
  | .info => "INFO"
  | .warn => "WARN"
  | .error => "ERROR"

def gravity : LogLevel → Nat
  | .trace => 0
  | .debug => 1
  | .info => 2
  | .warn => 3
  | .error => 4

end LogLevel

inductive LogEvent where
  | openedFile (path : String)
  /-- A line reader was closed after so many lines. -/
  | closedSource (lines : Nat)
  /-- A token stream let go of its source, with so many diagnostics not yet taken. -/
  | releasedSource (diagnostics : Nat)
  | scannedToken (token : Token)
  | skippedComment (line : Nat)
  | reported (diagnostic : Diagnostic)
  | readFailed (line : Nat) (failure : Failure)
deriving DecidableEq, Repr

namespace LogEvent

def level : LogEvent → LogLevel
  | .scannedToken _ | .skippedComment _ => .trace
  | .openedFile _ | .closedSource _ | .releasedSource _ => .debug
  | .reported _ => .warn
  | .readFailed _ _ => .error

def message : LogEvent → String
  | .openedFile _ => "opened source file"
  | .closedSource _ => "closed source"
  | .releasedSource _ => "scanner released its source"
  | .scannedToken _ => "scanned token"
  | .skippedComment _ => "skipping comment"
  | .reported d => d.problem.message
  | .readFailed _ _ => "failed to read source"

/-- The named values of an event, in the order they are written. -/
def fields : LogEvent → List (String × String)
  | .openedFile path => [("path", path)]
  | .closedSource lines => [("lines", toString lines)]
  | .releasedSource diagnostics => [("diagnostics", toString diagnostics)]
  | .scannedToken token => [("token", token.describe), ("kind", token.kind.name)]
  | .skippedComment line => [("line", toString line)]
  | .reported d => [("line", toString d.position.line), ("column", toString d.position.column)]
  | .readFailed line failure => [("line", toString line), ("error", failure.message)]

end LogEvent
end Lexis
