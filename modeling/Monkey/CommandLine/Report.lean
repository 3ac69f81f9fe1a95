import Monkey.CommandLine.Arguments
import Monkey.Eval.Evaluator
import Monkey.Syntax.Decoding

/-!
# Monkey — what a command reports

A command is a function of its arguments and of the files; what it writes and
its exit code are its report. What a program printed before it failed stays in
the report. A report is missing only if the program does not finish.
-/

namespace Monkey

/-- What a command leaves behind. -/
structure Report where
  exitCode : Nat
  stdout : String
  stderr : String
  deriving DecidableEq, Repr

/-- The content of the files that can be read. -/
abbrev Files := String → Except ReadError ByteArray

/-- How to use the tool, line by line. -/
def usageLines : List String :=
  ["Monkey evaluator",
    "",
    "Usage: monkey <command> [options]",
    "",
    "Commands:",
    "  run <program.json> [options]   Evaluate a program and print its result",
    "  dump <program.json>            Print a program as source text",
    "",
    "Run options:",
    "  --max-depth=<n>   Fail once function calls nest deeper than n",
    "  -q, --quiet       Discard log() output",
    "",
    "Environment:",
    "  RUST_LOG          Tracing filter (e.g. monkey_eval=debug)",
    "  MONKEY_LOG_TREE   Render tracing spans as a tree"]

/-- How to use the tool. -/
def usage : String := String.join (usageLines.map (· ++ "\n"))

namespace Report

/-- The report on a success. -/
def success (stdout : String) : Report := ⟨0, stdout, ""⟩

/-- The report on a failure, after what was written before it. Wrong arguments
are answered with the usage too. -/
def failure (stdout : String) (e : Failure) : Report :=
  match e with
  | .usage _ => ⟨e.exitCode, stdout, e.message ++ "\n\n" ++ usage⟩
  | _ => ⟨e.exitCode, stdout, e.message ++ "\n"⟩

end Report

/-- The text of a file. -/
def Files.text (files : Files) (path : String) : Except Failure String :=
  match files path with
  | .ok bytes =>
    match String.fromUTF8? bytes with
    | some text => .ok text
    | none => .error (.read path .notText)
  | .error e => .error (.read path e)

/-- The program in a file. -/
def Files.program (files : Files) (path : String) : Except Failure (Program Unit) := do
  let text ← files.text path
  match Program.decode? text with
  | some p => return p
  | none => throw (.document path)

namespace Command

/-- What a run writes for its result: nothing for null. -/
def resultText {ι : Type} : Value ι → String
  | .null => ""
  | v => v.render ++ "\n"

/-- Runs a program and reports on it. -/
def reportRun (p : Program Unit) (settings : RunSettings) : Option Report :=
  let printer := if settings.quiet then Printer.silent else Printer.stdout ""
  (p.run settings.limit printer).map fun (result, printer) =>
    match result with
    | .ok v => .success (printer.written ++ resultText v)
    | .error e => .failure printer.written (.evaluation e)

/-- Carries out a command. -/
def report (files : Files) : Command → Option Report
  | nothing => some ⟨2, "", usage⟩
  | help => some ⟨0, "", usage⟩
  | run path settings =>
    match files.program path with
    | .ok p => reportRun p settings
    | .error e => some (.failure "" e)
  | dump path =>
    match files.program path with
    | .ok p => some (.success (p.source ++ "\n"))
    | .error e => some (.failure "" e)

end Command

/-- Carries out the command that the arguments give. -/
def commandLine (files : Files) (arguments : List String) : Option Report :=
  match Command.ofArguments arguments with
  | .ok command => command.report files
  | .error e => some (.failure "" (.usage e))

end Monkey
