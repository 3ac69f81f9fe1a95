import Monkey.Operation
import Monkey.Printer
import Monkey.Value.Render

/-!
# Monkey — calling a builtin

All builtins but `log` only look at their arguments. `log` accepts any number of
arguments, sends one line with their texts to the printer and returns null, and
it never fails.
-/

namespace Monkey.Builtin

variable {ι : Type}

/-- A length as a value. -/
def length (n : Nat) : Except EvalError (Value ι) := Value.ofInt "len" n

/-- The only argument of a builtin that takes one. -/
def oneArgument : List (Value ι) → Except EvalError (Value ι)
  | [v] => .ok v
  | vs => .error (.builtinArity 1 vs.length)

/-- The elements of an argument that has to be an array. -/
def elementsOf (b : Builtin) (v : Value ι) : Except EvalError (List (Value ι)) :=
  match v.elements? with
  | some vs => .ok vs
  | none => .error (.wrongArgument b.name "ARRAY" v.type)

/-- The number of characters of a string or of elements of an array. -/
def callLen (args : List (Value ι)) : Except EvalError (Value ι) := do
  match ← oneArgument args with
  | .str s => length s.length
  | .array vs => length vs.length
  | v => .error (.unsupportedArgument len.name v.type)

/-- The first element of an array; null if it is empty. -/
def callFirst (args : List (Value ι)) : Except EvalError (Value ι) := do
  let vs ← elementsOf first (← oneArgument args)
  return vs.head?.getD .null

/-- The last element of an array; null if it is empty. -/
def callLast (args : List (Value ι)) : Except EvalError (Value ι) := do
  let vs ← elementsOf last (← oneArgument args)
  return vs.getLast?.getD .null

/-- An array without its first element; null if it is empty. -/
def callRest (args : List (Value ι)) : Except EvalError (Value ι) := do
  match ← elementsOf rest (← oneArgument args) with
  | [] => return .null
  | _ :: vs => return .array vs

/-- An array with an element added at its end. -/
def callPush (args : List (Value ι)) : Except EvalError (Value ι) :=
  match args with
  | [v, w] => do
    let vs ← elementsOf push v
    return .array (vs ++ [w])
  | vs => .error (.builtinArity 2 vs.length)

/-- The line that `log` prints. -/
def logLine (args : List (Value ι)) : String := " ".intercalate (args.map Value.render)

/-- Calls a builtin on evaluated arguments; the printer comes back as the call
leaves it. -/
def call (b : Builtin) (args : List (Value ι)) (printer : Printer) :
    Except EvalError (Value ι) × Printer :=
  match b with
  | len => (callLen args, printer)
  | first => (callFirst args, printer)
  | last => (callLast args, printer)
  | rest => (callRest args, printer)
  | push => (callPush args, printer)
  | log => (.ok .null, printer.println (logLine args))

end Monkey.Builtin
