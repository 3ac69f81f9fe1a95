import Monkey.Builtin.Name
import Monkey.Syntax.Basic

/-!
# Monkey — values

What an expression evaluates to. A closure holds its literal and the number of
the frame it was made in; the frames themselves are in the store, so a value is
finite data also where a function reaches itself through the frame it is bound
in.

Two equalities stand side by side. `Value.primitiveEq?` is the language's own
`==`, defined on integers, booleans, strings and null alone. `Value.beq` is the
host's: arrays element by element, functions by their literal, label included,
and their frame.
-/

namespace Monkey

/-- The number of a frame of the store. -/
abbrev FrameId := Nat

/-- A value of the language. -/
inductive Value (ι : Type) where
  | int (n : Int64)
  | bool (b : Bool)
  | str (s : String)
  | array (elements : List (Value ι))
  /-- A function literal and the frame it was evaluated in. -/
  | closure (literal : FnLiteral ι) (env : FrameId)
  | builtin (b : Builtin)
  /-- The absence of a value. -/
  | null

/-- The types that messages name. -/
inductive ValueType where
  | integer
  | boolean
  | string
  | array
  | function
  | builtin
  | null
  deriving DecidableEq, Repr

/-- A type's name in messages. -/
def ValueType.name : ValueType → String
  | integer => "INTEGER"
  | boolean => "BOOLEAN"
  | string => "STRING"
  | array => "ARRAY"
  | function => "FUNCTION"
  | builtin => "BUILTIN"
  | null => "NULL"

/-- No two types share a name. -/
theorem ValueType.name_injective {t u : ValueType} (h : t.name = u.name) : t = u := by
  cases t <;> cases u <;> simp_all [name]

namespace Value

variable {ι : Type}

instance : Inhabited (Value ι) := ⟨null⟩

/-- The type of a value. -/
def type : Value ι → ValueType
  | int _ => .integer
  | bool _ => .boolean
  | str _ => .string
  | array _ => .array
  | closure _ _ => .function
  | builtin _ => .builtin
  | null => .null

/-- Null and `false` are falsy; everything else, zero and the empty string
included, is truthy. -/
def truthy : Value ι → Bool
  | null | bool false => false
  | _ => true

/-- Whether the value is null. -/
def isNull : Value ι → Bool
  | null => true
  | _ => false

/-- The elements of an array. -/
def elements? : Value ι → Option (List (Value ι))
  | array vs => some vs
  | _ => none

/-- The language's `==`. It is undefined when a side is an array, a function or
a builtin; values of different types are never equal. -/
def primitiveEq? : Value ι → Value ι → Option Bool
  | array _, _ | closure _ _, _ | builtin _, _ => none
  | _, array _ | _, closure _ _ | _, builtin _ => none
  | int a, int b => some (a == b)
  | bool a, bool b => some (a == b)
  | str a, str b => some (a == b)
  | null, null => some true
  | _, _ => some false

section Equality

variable [BEq ι]

mutual

/-- The host's equality of values. -/
def beq : Value ι → Value ι → Bool
  | int a, int b => a == b
  | bool a, bool b => a == b
  | str a, str b => a == b
  | array vs, array ws => beqList vs ws
  | closure f m, closure g n => f == g && m == n
  | builtin a, builtin b => a == b
  | null, null => true
  | _, _ => false
termination_by structural v => v

/-- The host's equality of lists of values, one by one. -/
def beqList : List (Value ι) → List (Value ι) → Bool
  | [], [] => true
  | v :: vs, w :: ws => v.beq w && beqList vs ws
  | _, _ => false
termination_by structural vs => vs

end

instance : BEq (Value ι) := ⟨beq⟩

end Equality

end Value

end Monkey
