import Lexis.Source.LineReader

/-! Talking to a line reader: a list of requests, and what each of them is answered. -/

namespace Lexis.LineReader

inductive Request where
  | read
  /-- Read up to the first outcome that is not a character. -/
  | readRun
  | close
  /-- Change nothing. -/
  | observe
deriving DecidableEq, Repr

inductive Reply where
  | done
  | outcome (outcome : Outcome)
  | run (text : String) (stop : Outcome)
deriving DecidableEq, Repr

def answer (r : LineReader) : Request → Reply × LineReader
  | .read => (.outcome r.read.1, r.read.2)
  | .readRun =>
    let run := CharSource.readRun "" r
    (.run run.1 run.2.1, run.2.2)
  | .close => (.done, r.close)
  | .observe => (.done, r)

/-- The reply to each request, with the reader after it. -/
def converse (r : LineReader) : List Request → List (Reply × LineReader)
  | [] => []
  | request :: requests =>
    let turn := r.answer request
    turn :: turn.2.converse requests

end Lexis.LineReader
