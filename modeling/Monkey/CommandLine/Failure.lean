import Monkey.EvalError

/-!
# Monkey — why a command fails

A command fails because of its arguments, its file, the document in it, or the
program's own error. The first three are reported as errors of the tool, the
last as an error of the program.
-/

namespace Monkey

/-- What is wrong with the arguments. -/
inductive UsageError where
  | unknownCommand (command : String)
  /-- `dump` takes exactly one argument. -/
  | dumpArguments
  /-- The limit on the depth of calls is not a number. -/
  | invalidDepth (text : String)
  | unknownOption (argument : String)
  /-- A second path. -/
  | unexpectedArgument (argument : String)
  | missingPath
  deriving DecidableEq, Repr

/-- The message for wrong arguments. -/
def UsageError.message : UsageError → String
  | unknownCommand command => s!"unknown command '{command}'"
  | dumpArguments => "usage: monkey dump <program.json>"
  | invalidDepth text => s!"invalid value for --max-depth: '{text}'"
  | unknownOption argument => s!"unknown option '{argument}'"
  | unexpectedArgument argument => s!"unexpected argument '{argument}'"
  | missingPath => "missing program path"

/-- Why a file has no text. -/
inductive ReadError where
  | notFound
  /-- The bytes of the file are not those of any text. -/
  | notText
  | other (reason : String)
  deriving DecidableEq, Repr

/-- The message for a file without text. -/
def ReadError.message : ReadError → String
  | notFound => "No such file or directory (os error 2)"
  | notText => "stream did not contain valid UTF-8"
  | other reason => reason

/-- Why a command fails. -/
inductive Failure where
  | usage (e : UsageError)
  | read (path : String) (e : ReadError)
  /-- The text of the file is no document of a program. -/
  | document (path : String)
  | evaluation (e : EvalError)
  deriving DecidableEq, Repr

namespace Failure

/-- How the report on an invalid document begins; the reason follows. -/
def documentPrefix (path : String) : String := s!"error: invalid program '{path}': "

/-- The line that reports a failure. -/
def message : Failure → String
  | usage e => s!"error: {e.message}"
  | read path e => s!"error: cannot read '{path}': {e.message}"
  | document path => documentPrefix path ++ "not the document of a program"
  | evaluation e => s!"ERROR: {e.message}"

/-- The exit code of a command that fails so. -/
def exitCode : Failure → Nat
  | usage _ => 2
  | read _ _ | document _ | evaluation _ => 1

end Failure

end Monkey
