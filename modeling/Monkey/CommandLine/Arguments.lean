import Monkey.CommandLine.Failure

/-!
# Monkey — command line arguments

The first argument names the command. `run` takes one path and options in any
order, and the arguments are judged one by one from the left, so the first wrong
one is reported; that there is no path shows only at the end. Of several limits
the last counts.
-/

namespace Monkey

/-- How a program is to be run. -/
structure RunSettings where
  /-- The limit on the depth of calls. -/
  limit : Option Nat
  /-- Whether printed lines are discarded. -/
  quiet : Bool
  deriving DecidableEq, Repr

/-- The number below 2^64 that a text of digits stands for; a plus sign may
precede the digits. -/
def depth? (text : String) : Option Nat :=
  let digits := match text.toList with
    | '+' :: rest => rest
    | cs => cs
  let n := Nat.ofDigitChars 10 digits 0
  if digits ≠ [] ∧ digits.all Char.isDigit ∧ n < UInt64.size then some n else none

/-- What one argument of `run` means by itself. -/
inductive RunArgument where
  | maxDepth (text : String)
  | quiet
  | unknown (argument : String)
  | path (path : String)
  deriving DecidableEq, Repr

/-- How an argument of `run` is to be understood. -/
def RunArgument.ofString (argument : String) : RunArgument :=
  match "--max-depth=".toList.isPrefixOf? argument.toList with
  | some text => .maxDepth (String.ofList text)
  | none =>
    if argument = "--quiet" ∨ argument = "-q" then .quiet
    else if argument.toList.head? = some '-' then .unknown argument
    else .path argument

/-- The arguments of `run` taken together so far. -/
structure RunArguments where
  path : Option String
  settings : RunSettings
  deriving DecidableEq, Repr

namespace RunArguments

/-- No arguments. -/
def start : RunArguments := ⟨none, none, false⟩

/-- Takes one more argument. -/
def add (args : RunArguments) (argument : String) : Except UsageError RunArguments :=
  match RunArgument.ofString argument with
  | .maxDepth text =>
    match depth? text with
    | some n => .ok { args with settings := { args.settings with limit := some n } }
    | none => .error (.invalidDepth text)
  | .quiet => .ok { args with settings := { args.settings with quiet := true } }
  | .unknown argument => .error (.unknownOption argument)
  | .path path =>
    match args.path with
    | none => .ok { args with path := some path }
    | some _ => .error (.unexpectedArgument path)

/-- The path and the settings that the arguments of `run` give. -/
def ofList (arguments : List String) : Except UsageError (String × RunSettings) := do
  let args ← arguments.foldlM add start
  match args.path with
  | some path => return (path, args.settings)
  | none => throw .missingPath

end RunArguments

/-- What the tool is asked to do. -/
inductive Command where
  /-- There are no arguments. -/
  | nothing
  | help
  | run (path : String) (settings : RunSettings)
  | dump (path : String)
  deriving DecidableEq, Repr

namespace Command

/-- The command that the arguments give. -/
def ofArguments : List String → Except UsageError Command
  | [] => .ok nothing
  | "run" :: arguments => do
    let (path, settings) ← RunArguments.ofList arguments
    return run path settings
  | "dump" :: arguments =>
    match arguments with
    | [path] => .ok (dump path)
    | _ => .error .dumpArguments
  | "help" :: _ | "--help" :: _ | "-h" :: _ => .ok help
  | command :: _ => .error (.unknownCommand command)

/-- The file that a command reads. -/
def file? : Command → Option String
  | run path _ | dump path => some path
  | nothing | help => none

end Command

end Monkey
