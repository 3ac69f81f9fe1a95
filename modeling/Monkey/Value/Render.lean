import Monkey.Syntax.Source
import Monkey.Value.Basic

/-!
# Monkey — values as text

`Value.text` says what the text of a value is: arrays in brackets, strings as
they are, functions as their parameters and the block of their body.
`Value.render` writes the same text with a list of what is still to be written,
so that it needs no stack of its own however deeply arrays are nested.
`Value.listing` is the text that tells the variants apart.
-/

namespace Monkey

variable {ι : Type}

namespace Value

/-- The text of a value that is no array. -/
def leafText : Value ι → String
  | int n => intText n
  | bool b => boolText b
  | str s => s
  | closure f _ =>
    "fn(" ++ ", ".intercalate f.parameters ++ ") \x7b\n" ++ Block.source f.body ++ "\n\x7d"
  | builtin _ => "builtin function"
  | null => "null"
  | array _ => ""

mutual

/-- The text of a value. -/
def text : Value ι → String
  | array vs => "[" ++ ", ".intercalate (texts vs) ++ "]"
  | v => v.leafText
termination_by structural v => v

/-- The texts of a list of values. -/
def texts : List (Value ι) → List String
  | [] => []
  | v :: vs => v.text :: texts vs
termination_by structural vs => vs

end

end Value

/-! ## Writing with a list of pending items -/

/-- What is still to be written. -/
inductive Pending (ι : Type) where
  | text (s : String)
  | value (v : Value ι)

namespace Pending

/-- The items for the elements of an array after the first. -/
def others : List (Value ι) → List (Pending ι)
  | [] => []
  | v :: vs => .text ", " :: .value v :: others vs

/-- The items for the elements of an array, separators between them. -/
def elements : List (Value ι) → List (Pending ι)
  | [] => []
  | v :: vs => .value v :: others vs

end Pending

mutual

/-- The number of items that writing a value goes through. -/
def Value.items : Value ι → Nat
  | .array vs => Value.itemsList vs + 2
  | _ => 1
termination_by structural v => v

/-- The number of items that writing the elements of an array goes through, with
a separator each. -/
def Value.itemsList : List (Value ι) → Nat
  | [] => 0
  | v :: vs => v.items + 1 + Value.itemsList vs
termination_by structural vs => vs

end

namespace Pending

/-- The number of items that writing an item goes through. -/
def size : Pending ι → Nat
  | text _ => 1
  | value v => v.items

/-- The number of items that writing a list goes through. -/
def total : List (Pending ι) → Nat
  | [] => 0
  | p :: ps => p.size + total ps

theorem total_append (ps qs : List (Pending ι)) : total (ps ++ qs) = total ps + total qs := by
  induction ps with
  | nil => simp [total]
  | cons p ps ih => simp [total, ih, Nat.add_assoc]

/-- The separators between elements are counted with the elements. -/
theorem total_others (vs : List (Value ι)) : total (others vs) = Value.itemsList vs := by
  induction vs with
  | nil => rfl
  | cons v vs ih => simp only [others, total, size, Value.itemsList, ih]; omega

/-- Only the first element has no separator before it. -/
theorem total_elements_le (vs : List (Value ι)) : total (elements vs) ≤ Value.itemsList vs := by
  cases vs with
  | nil => exact Nat.le_refl _
  | cons v vs => simp only [elements, total, size, Value.itemsList, total_others]; omega

/-- Every item is at least one item. -/
theorem size_pos (p : Pending ι) : 0 < p.size := by
  cases p with
  | text s => exact Nat.one_pos
  | value v => cases v <;> simp [size, Value.items]

/-- Writes the pending items behind the text written so far, the first item
first. An array gives way to its bracket and the items for its elements and its
closing bracket. -/
def write (written : String) : List (Pending ι) → String
  | [] => written
  | .text s :: rest => write (written ++ s) rest
  | .value (.array vs) :: rest => write (written ++ "[") (elements vs ++ .text "]" :: rest)
  | .value v :: rest => write (written ++ v.leafText) rest
termination_by ps => total ps
decreasing_by
  · simp only [total, size]; omega
  · have := total_elements_le vs
    simp only [total, size, total_append, Value.items]; omega
  · have := size_pos (Pending.value v)
    simp only [total]; omega

end Pending

namespace Value

/-- Writes a value, by a list of pending items that starts with the value alone.
-/
def render (v : Value ι) : String := Pending.write "" [.value v]

/-! ## Listings -/

mutual

/-- A value with the name of its variant. Functions show their parameters alone,
since the frame they were made in may lead back to them. -/
def listing : Value ι → String
  | int n => "Integer(" ++ intText n ++ ")"
  | bool b => "Bool(" ++ boolText b ++ ")"
  | str s => "Str(" ++ Text.quote s ++ ")"
  | array vs => "Array([" ++ ", ".intercalate (listings vs) ++ "])"
  | closure f _ =>
    "FunctionValue \x7b params: [" ++
      ", ".intercalate (f.parameters.map fun x => "Identifier(" ++ Text.quote x ++ ")") ++
      "], .. \x7d"
  | builtin b => "Builtin(" ++ b.name.capitalize ++ ")"
  | null => "Null"
termination_by structural v => v

/-- The listings of a list of values. -/
def listings : List (Value ι) → List String
  | [] => []
  | v :: vs => v.listing :: listings vs
termination_by structural vs => vs

end

end Value

end Monkey
