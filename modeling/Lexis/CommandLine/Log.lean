import Lexis.LogEvent

/-! What a run of the command line logs, and what a log makes of it. -/

namespace Lexis.CommandLine

/-- An event of the scanner, or one that the run adds. -/
inductive Event where
  | scanning (event : LogEvent)
  | scanned (tokens symbols : Nat)
  | cannotReread (failure : Failure)
deriving DecidableEq, Repr

namespace Event

def level : Event → LogLevel
  | .scanning event => event.level
  | .scanned _ _ => .info
  | .cannotReread _ => .warn

def message : Event → String
  | .scanning event => event.message
  | .scanned _ _ => "scanned"
  | .cannotReread _ => "unable to re-read source for listing"

/-- How long a scan took is left out, like the time of an event. -/
def fields : Event → List (String × String)
  | .scanning event => event.fields
  | .scanned tokens symbols => [("tokens", toString tokens), ("symbols", toString symbols)]
  | .cannotReread failure => [("error", failure.message)]

end Event

/-- What a log writes when it is set up, and for each event. The number of the event stands for the
time. An event that is filtered out comes to nothing. -/
structure Log where
  opening : String
  line : Nat → Event → String

namespace Log

def written (log : Log) (events : List Event) : String :=
  log.opening ++ String.join (events.mapIdx log.line)

def off : Log := ⟨"", fun _ _ => ""⟩

/-- Writes the events of a level and graver ones, without their time and origin. -/
def ofLevel (least : LogLevel) : Log where
  opening := ""
  line _ event :=
    if least.gravity ≤ event.level.gravity then
      event.level.name ++ " " ++ event.message
        ++ String.join (event.fields.map fun (key, value) => " " ++ key ++ "=" ++ value) ++ "\n"
    else ""

end Log
end Lexis.CommandLine
