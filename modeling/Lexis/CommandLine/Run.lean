import Lexis.CommandLine.Log
import Lexis.Files
import Lexis.Report.Listing
import Lexis.Report.Rendering
import Lexis.TokenStream.Next

/-! A run of the command line as a function of its options, of the files it sees and of the log that
is set up for its filter. -/

namespace Lexis.CommandLine

/-- What a run is asked to do. The filter says which events are logged. -/
structure Options where
  file : String
  logFilter : String
  quiet : Bool
  listing : Bool
deriving DecidableEq, Repr

structure Output where
  exit : Nat
  stdout : String := ""
  stderr : String := ""
deriving DecidableEq, Repr

namespace Exit

def success : Nat := 0
def dataError : Nat := 65
def noInput : Nat := 66

end Exit

def tokenLines (tokens : List Token) : String :=
  String.join (tokens.map fun token => token.describeByKind ++ "\n")

/-- A diagnostic with its line, if the lines of the file are known. -/
def renderWith (path : String) (lines? : Option (List String)) (d : Diagnostic) :
    Except Fault String :=
  d.render path (lines?.bind fun lines => Text.numbered? lines d.position.line)

def renderAll (path : String) (text? : Option String) (ds : List Diagnostic) :
    Except Fault String :=
  (ds.mapM (renderWith path (text?.map Text.lines))).map String.join

/-- Scans a file that was opened. The second part is the log of it. -/
def scan (path : String) (entry : Entry) : Except Fault (Tokenization × List LogEvent) :=
  let opened : TokenStream LineReader := TokenStream.advance
    { source := entry.reader, symbols := .standard, log := #[.openedFile path] }
  opened.rest.map fun drained =>
    let taken := drained.2.takeDiagnostics
    (⟨drained.1, taken.1, drained.2.symbols⟩, taken.2.close.log.toList)

/-- The events of a run over a file that was scanned. Only a listing reads the file again. -/
def events (options : Options) (whole : Except Failure String)
    (scanned : Tokenization × List LogEvent) : List Event :=
  scanned.2.map .scanning ++ [.scanned scanned.1.tokens.length scanned.1.symbols.size] ++
    match whole with
    | .error failure => if options.listing then [.cannotReread failure] else []
    | .ok _ => []

/-- What a run makes of a file that was scanned. The listing and the lines in diagnostics need the
file as a whole. -/
def report (log : Log) (options : Options) (whole : Except Failure String)
    (scanned : Tokenization × List LogEvent) : Except Fault Output :=
  let found := scanned.1
  (renderAll options.file whole.toOption found.diagnostics).map fun shown =>
    { exit := if found.diagnostics.isEmpty then Exit.success else Exit.dataError
      stdout := (if options.quiet then "" else tokenLines found.tokens)
        ++ (if options.listing then (whole.toOption.map listing).getD "" else "")
      stderr := log.written (events options whole scanned) ++ shown }

def run (logs : String → Log) (files : Files) (options : Options) : Except Fault Output :=
  let log := logs options.logFilter
  match files options.file with
  | .error failure => .ok
    { exit := Exit.noInput
      stderr := log.written [] ++ "Error reading source file " ++ options.file ++ ": "
        ++ failure.message ++ "\n" }
  | .ok entry => (scan options.file entry).bind (report log options entry.text)

end Lexis.CommandLine
