import Monkey.Json.Tree

/-!
# Monkey — shapes of JSON values

The shapes in which data is laid down in a document. A record is an object with
the record's fields in any order, other members being passed over, or an array
of exactly its fields in their order. A variant is an object with one member,
whose key is the tag.
-/

namespace Monkey.Json

/-- The text of a string that has one. -/
def text? : Json → Option String
  | string t => t
  | _ => none

/-- A truth value. -/
def bool? : Json → Option Bool
  | bool b => some b
  | _ => none

/-- The items of an array. -/
def items? : Json → Option (List Json)
  | array vs => some vs
  | _ => none

/-- The number that is written as an integer. A minus sign before zero makes no
integer. -/
def integer? (lexeme : String) : Option Int :=
  match lexeme.toList with
  | '-' :: digits =>
    let n := Nat.ofDigitChars 10 digits 0
    if digits.all Char.isDigit && n != 0 then some (-n) else none
  | digits => if digits.all Char.isDigit then some (Nat.ofDigitChars 10 digits 0) else none

/-- An integer of 64 bits with a sign. -/
def int64? : Json → Option Int64
  | number lexeme => do
    let n ← integer? lexeme
    if Int64.minValue.toInt ≤ n ∧ n ≤ Int64.maxValue.toInt then some (Int64.ofInt n) else none
  | _ => none

/-- The tag and the content of a variant. -/
def variant? : Json → Option (String × Json)
  | object [(some tag, content)] => some (tag, content)
  | _ => none

/-- The member of an object with a key: `some none` if there is none, nothing if
there are several. -/
def member? (members : List (Option String × Json)) (key : String) : Option (Option Json) :=
  match members.filter (·.1 == some key) with
  | [] => some none
  | [(_, v)] => some (some v)
  | _ => none

/-- The fields of a record, each as far as it is present. An object may leave
fields out, an array may not. Every key of the object has a text. -/
def fields? (names : List String) : Json → Option (List (Option Json))
  | array items => if items.length = names.length then some (items.map some) else none
  | object members =>
    if members.all (·.1.isSome) then names.mapM (member? members) else none
  | _ => none

end Monkey.Json
