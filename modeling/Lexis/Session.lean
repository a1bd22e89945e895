import Lexis.Files
import Lexis.Source.Any
import Lexis.Source.Metered
import Lexis.TokenStream.Requests

/-! Sessions: several uses of one symbol table, one after another. -/

namespace Lexis

abbrev MeteredStream := TokenStream (Metered Source)

/-- A source that was scanned on request: the stream as it was opened, then the reply to each
request with the stream after it. -/
structure Scan where
  opened : MeteredStream
  turns : List (TokenStream.Reply × MeteredStream)

namespace Scan

def run (opened : MeteredStream) (requests : List TokenStream.Request) : Except Fault Scan :=
  (opened.converse requests).map fun turns => { opened, turns }

def last (scan : Scan) : MeteredStream :=
  (scan.turns.getLast?.map (·.2)).getD scan.opened

/-- The stream after it was given up, which releases a source that is still held. -/
def dropped (scan : Scan) : MeteredStream := scan.last.close

end Scan

/-- Where the characters of a scan come from. -/
inductive Input where
  | bytes (content : List UInt8)
  | script (outcomes : List Outcome)
  | file (files : Files) (path : String)

namespace Input

/-- A stream over an input. Opening a file is logged. -/
def stream (symbols : SymbolTable) : Input → Except Failure MeteredStream
  | .bytes content => .ok (.ofSource ⟨.reader (.ofBytes content), 0, 0⟩ symbols)
  | .script outcomes => .ok (.ofSource ⟨.script ⟨outcomes⟩, 0, 0⟩ symbols)
  | .file files path =>
    (files path).map fun entry =>
      TokenStream.advance
        { source := ⟨.reader entry.reader, 0, 0⟩, symbols, log := #[.openedFile path] }

end Input

namespace Session

inductive Step where
  | intern (spelling : String) (kind : Kind)
  | resolve (spelling : String)
  | contains (spelling : String)
  | isEmpty
  | tokenize (text : String)
  | scan (input : Input) (requests : List TokenStream.Request)

inductive Result where
  | symbol (symbol : Option Symbol)
  | flag (value : Bool)
  | tokenization (result : Tokenization)
  | scan (scan : Scan)
  | unopened (failure : Failure)

/-- What a step comes to, and the table after it. -/
def perform (table : SymbolTable) : Step → Except Fault (Result × SymbolTable)
  | .intern spelling kind =>
    let interned := table.intern spelling kind
    .ok (.symbol (some interned.1), interned.2)
  | .resolve spelling => .ok (.symbol (table.resolve? spelling), table)
  | .contains spelling => .ok (.flag (table.contains spelling), table)
  | .isEmpty => .ok (.flag table.isEmpty, table)
  | .tokenize text => (Lexis.tokenize text table).map fun t => (.tokenization t, t.symbols)
  | .scan input requests =>
    match input.stream table with
    | .error failure => .ok (.unopened failure, table)
    | .ok opened => (Scan.run opened requests).map fun scan => (.scan scan, scan.dropped.symbols)

def run (table : SymbolTable) : List Step → Except Fault (List (Result × SymbolTable))
  | [] => .ok []
  | step :: steps =>
    match perform table step with
    | .error fault => .error fault
    | .ok done => (run done.2 steps).map (done :: ·)

end Session
end Lexis
