import Monkey.CommandLine.Report

/-!
# Monkey — the command line tool

Reads the one file that the arguments name, if they name one, and writes the
report.
-/

namespace Monkey

/-- The bytes of a file. -/
def readBytes (path : String) : IO (Except ReadError ByteArray) := do
  try
    return .ok (← IO.FS.readBinFile path)
  catch e =>
    match e with
    | .noFileOrDirectory _ _ _ => return .error .notFound
    | e => return .error (.other (toString e))

end Monkey

open Monkey in
/-- Carries out the command line. -/
def main (arguments : List String) : IO UInt32 := do
  let path : Option String := match Command.ofArguments arguments with
    | .ok command => command.file?
    | .error _ => none
  let content : Except ReadError ByteArray ← match path with
    | some path => readBytes path
    | none => pure (.error .notFound)
  match commandLine (fun _ => content) arguments with
  | some report =>
    IO.print report.stdout
    IO.eprint report.stderr
    return report.exitCode.toUInt32
  | none =>
    IO.eprintln "error: the run does not finish"
    return 1
