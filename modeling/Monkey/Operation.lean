import Monkey.EvalError

/-!
# Monkey — operators on values

What each operator does to evaluated operands. Integer operations are computed
exactly and refused when the result is no 64-bit integer; `+` also joins
strings; `==` and `!=` ask `Value.primitiveEq?` outside the integers; and
everything else is an error that says whether the operand types differ.
-/

namespace Monkey

variable {ι : Type}

/-- The integer, if it fits in 64 bits with a sign; otherwise the operation
overflows. -/
def Value.ofInt (operation : String) (n : Int) : Except EvalError (Value ι) :=
  if Int64.minValue.toInt ≤ n ∧ n ≤ Int64.maxValue.toInt then .ok (.int (Int64.ofInt n))
  else .error (.overflow operation)

/-- A unary operator on a value. -/
def UnaryOp.apply : UnaryOp → Value ι → Except EvalError (Value ι)
  | .not, v => .ok (.bool (!v.truthy))
  | .neg, .int n => Value.ofInt "negation" (-n.toInt)
  | .neg, v => .error (.unknownUnary .neg v.type)

namespace BinaryOp

/-- A binary operator on two integers. Division goes toward zero. -/
def applyInt (op : BinaryOp) (a b : Int64) : Except EvalError (Value ι) :=
  match op with
  | add => Value.ofInt "addition" (a.toInt + b.toInt)
  | sub => Value.ofInt "subtraction" (a.toInt - b.toInt)
  | mul => Value.ofInt "multiplication" (a.toInt * b.toInt)
  | div => if b = 0 then .error .divisionByZero else Value.ofInt "division" (a.toInt.tdiv b.toInt)
  | lt => .ok (.bool (a < b))
  | gt => .ok (.bool (b < a))
  | eq => .ok (.bool (a == b))
  | ne => .ok (.bool (a != b))

/-- The error of an operator that is not defined on the two operands. -/
def undefined (op : BinaryOp) (v w : Value ι) : EvalError :=
  if v.type = w.type then .unknownBinary v.type op w.type else .typeMismatch v.type op w.type

/-- A binary operator on operands that are neither two integers nor two strings
to be joined: only `==` and `!=` can be defined there. -/
def applyEquality (op : BinaryOp) (v w : Value ι) : Except EvalError (Value ι) :=
  match op, v.primitiveEq? w with
  | eq, some same => .ok (.bool same)
  | ne, some same => .ok (.bool (!same))
  | _, _ => .error (op.undefined v w)

/-- A binary operator on two values. -/
def apply (op : BinaryOp) (v w : Value ι) : Except EvalError (Value ι) :=
  match op, v, w with
  | op, .int a, .int b => op.applyInt a b
  | add, .str s, .str t => .ok (.str (s ++ t))
  | op, v, w => op.applyEquality v w

end BinaryOp

/-- The element of an array at an index; null where the index is negative or
past the end. -/
def Value.index : Value ι → Value ι → Except EvalError (Value ι)
  | .array vs, .int i =>
    .ok (if 0 ≤ i.toInt then vs[i.toInt.toNat]?.getD .null else .null)
  | v, _ => .error (.notIndexable v.type)

end Monkey
