import Lexis.CommandLine.Run

/-! The program: reads its arguments and the file they name, and writes what the run leaves
behind. -/

namespace Lexis.CommandLine

def logFor : String → Log
  | "trace" => .ofLevel .trace
  | "debug" => .ofLevel .debug
  | "info" => .ofLevel .info
  | "warn" => .ofLevel .warn
  | "error" => .ofLevel .error
  | _ => .off

/-- Adds the arguments to the options. There has to be one file, with any flags around it. -/
def Options.read : Options → List String → Option Options
  | options, [] => if options.file = "" then none else some options
  | options, "--log-level" :: filter :: rest => read { options with logFilter := filter } rest
  | options, arg :: rest =>
    if arg = "-q" ∨ arg = "--quiet" then read { options with quiet := true } rest
    else if arg = "-l" ∨ arg = "--listing" then read { options with listing := true } rest
    else if options.file = "" ∧ ¬ arg.startsWith "-" then read { options with file := arg } rest
    else none

def openPath (path : String) : IO (Except Failure Entry) := do
  try
    return .ok (.file (← IO.FS.readBinFile path).toList)
  catch
    | .noFileOrDirectory .. => return .error .notFound
    | .inappropriateType _ 21 _ => return .ok .directory
    | .inappropriateType .. => return .error .notADirectory
    | other => return .error (.other (toString other))

end Lexis.CommandLine

open Lexis CommandLine in
def main (args : List String) : IO UInt32 := do
  match Options.read ⟨"", "warn", false, false⟩ args with
  | none =>
    IO.eprintln "one source file is expected"
    return 2
  | some options =>
    let opened ← openPath options.file
    match run logFor (fun _ => opened) options with
    | .ok output =>
      IO.print output.stdout
      IO.eprint output.stderr
      return output.exit.toUInt32
    | .error fault =>
      IO.eprintln fault.message
      return 101
