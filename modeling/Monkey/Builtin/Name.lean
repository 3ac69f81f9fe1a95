/-!
# Monkey — the builtin functions by name

The functions every program can call without defining them, in their fixed
order. An identifier means a builtin only where no binding of its name is in
scope.
-/

namespace Monkey

/-- A builtin function. -/
inductive Builtin where
  | len
  | first
  | last
  | rest
  | push
  | log
  deriving DecidableEq, Repr

namespace Builtin

/-- Every builtin, in order. -/
def all : List Builtin := [len, first, last, rest, push, log]

/-- The name programs call a builtin by. -/
def name : Builtin → String
  | len => "len"
  | first => "first"
  | last => "last"
  | rest => "rest"
  | push => "push"
  | log => "log"

/-- The builtin of a name. -/
def ofName? (s : String) : Option Builtin := all.find? (·.name == s)

/-- The place of a builtin in the order. -/
def position (b : Builtin) : Nat := all.idxOf b

theorem mem_all (b : Builtin) : b ∈ all := by cases b <;> decide

@[simp] theorem ofName?_name (b : Builtin) : ofName? b.name = some b := by
  cases b <;> decide

end Builtin

end Monkey
