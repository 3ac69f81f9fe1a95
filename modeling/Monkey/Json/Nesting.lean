import Monkey.Json.Tree

/-!
# Monkey — how deep brackets nest

The nesting of a text is the largest number of brackets that are open at once; brackets
in strings are characters like any other. The nesting of a document is how many arrays
and objects lie inside each other, at most.
-/

namespace Monkey.Json

/-! ## Texts -/

/-- Where a character of a text stands: outside strings, in a string, or right after a
backslash in a string. -/
inductive Quoting where
  | outside
  | inside
  | escaped

/-- The largest number of brackets that are open at once in the rest of a text, before
which so many are open. -/
def deepest : Quoting → Nat → List Char → Nat
  | _, opened, [] => opened
  | .escaped, opened, _ :: cs => deepest .inside opened cs
  | .inside, opened, c :: cs =>
    if c = '\\' then deepest .escaped opened cs
    else if c = '\x22' then deepest .outside opened cs
    else deepest .inside opened cs
  | .outside, opened, c :: cs =>
    if c = '\x22' then deepest .inside opened cs
    else if c = '[' ∨ c = '\x7b' then deepest .outside (opened + 1) cs
    else if c = ']' ∨ c = '\x7d' then max opened (deepest .outside (opened - 1) cs)
    else deepest .outside opened cs

/-- How deep the brackets of a text nest. -/
def textNesting (text : String) : Nat := deepest .outside 0 text.toList

/-! ## Documents -/

mutual

/-- How deep a document nests. -/
def nesting : Json → Nat
  | null | bool _ | number _ | string _ => 0
  | array vs => itemsNesting vs + 1
  | object ms => membersNesting ms + 1
termination_by structural v => v

/-- How deep the items of an array nest. -/
def itemsNesting : List Json → Nat
  | [] => 0
  | v :: vs => max v.nesting (itemsNesting vs)
termination_by structural vs => vs

/-- How deep the members of an object nest. -/
def membersNesting : List (Option String × Json) → Nat
  | [] => 0
  | (_, v) :: ms => max v.nesting (membersNesting ms)
termination_by structural ms => ms

end

end Monkey.Json
