import Monkey.Value.Basic

/-!
# Monkey — why an evaluation fails

One constructor per cause, with what is needed to word it, and the wording in
`EvalError.message`.
-/

namespace Monkey

/-- The cause of a failed evaluation. -/
inductive EvalError where
  /-- The unary operator is not defined on the operand. -/
  | unknownUnary (op : UnaryOp) (operand : ValueType)
  /-- The binary operator is not defined on two operands of one type. -/
  | unknownBinary (left : ValueType) (op : BinaryOp) (right : ValueType)
  /-- The binary operator is not defined on operands of these different types. -/
  | typeMismatch (left : ValueType) (op : BinaryOp) (right : ValueType)
  /-- The value on the left cannot be indexed, or not by this index. -/
  | notIndexable (left : ValueType)
  | divisionByZero
  /-- The exact result of the operation is no 64-bit integer. -/
  | overflow (operation : String)
  /-- Neither a binding nor a builtin has the name. -/
  | unbound (name : String)
  /-- The value called is neither a function nor a builtin. -/
  | notCallable (callee : ValueType)
  /-- A function was called with a number of arguments that is not its number of
  parameters. -/
  | arity (expected got : Nat)
  /-- As many calls are in progress as the limit allows, and one more was attempted. -/
  | tooDeep (limit : Nat)
  /-- A builtin was called with a wrong number of arguments. -/
  | builtinArity (expected got : Nat)
  /-- The builtin is not defined on arguments of this type. -/
  | unsupportedArgument (builtin : String) (got : ValueType)
  /-- The builtin wants an argument of another type. -/
  | wrongArgument (builtin expected : String) (got : ValueType)
  deriving DecidableEq, Repr

/-- The message for a cause. -/
def EvalError.message : EvalError → String
  | unknownUnary op operand => s!"unknown operator: {op.symbol}{operand.name}"
  | unknownBinary left op right => s!"unknown operator: {left.name} {op.symbol} {right.name}"
  | typeMismatch left op right => s!"type mismatch: {left.name} {op.symbol} {right.name}"
  | notIndexable left => s!"index operator not supported: {left.name}"
  | divisionByZero => "division by zero"
  | overflow operation => s!"integer overflow in {operation}"
  | unbound name => s!"identifier not found: {name}"
  | notCallable callee => s!"not a function: {callee.name}"
  | arity expected got => s!"wrong number of arguments: want={expected}, got={got}"
  | tooDeep limit => s!"maximum recursion depth exceeded (limit {limit})"
  | builtinArity expected got => s!"wrong number of arguments. got={got}, want={expected}"
  | unsupportedArgument builtin got => s!"argument to '{builtin}' not supported, got {got.name}"
  | wrongArgument builtin expected got =>
    s!"argument to '{builtin}' must be {expected}, got {got.name}"

end Monkey
