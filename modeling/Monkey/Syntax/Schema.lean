import Monkey.Json.Tree
import Monkey.Syntax.Basic

/-!
# Monkey — the schema of program documents

What stands where in the document of a program. Data with fields is a record: an object
that has the fields as members, or an array of them in their order. Data of several kinds
is a variant: an object with one member, whose key tells the kind. A member of a record
that is no field is passed over, with all that lies in it; `Json.nestingAs` is the nesting
of what is left.
-/

namespace Monkey

/-- Data with fields. -/
inductive Record where
  | block
  | literal
  | binding
  | unary
  | binary
  | cond
  | call
  | index
  deriving DecidableEq, Repr

/-- Data of several kinds. -/
inductive Variant where
  | expr
  | stmt
  deriving DecidableEq, Repr

/-- The forms of data in a document. -/
inductive Form where
  | text
  | integer
  | truth
  /-- One of some symbols: a string, or the key of an object whose content is null. -/
  | operator (symbols : List String)
  | list (item : Form)
  | record (r : Record)
  | variant (x : Variant)
  deriving DecidableEq, Repr

/-- A field of a record. -/
structure Field where
  name : String
  form : Form
  /-- The field may be null, and an object may leave it out. -/
  optional : Bool
  deriving DecidableEq, Repr

/-- The fields of a record, in their order. -/
def Record.fields : Record → List Field
  | block => [⟨"statements", .list (.variant .stmt), false⟩]
  | literal => [⟨"parameters", .list .text, false⟩, ⟨"body", .record block, false⟩]
  | binding => [⟨"name", .text, false⟩, ⟨"value", .variant .expr, false⟩]
  | unary =>
    [⟨"op", .operator (UnaryOp.all.map UnaryOp.symbol), false⟩,
      ⟨"right", .variant .expr, false⟩]
  | binary =>
    [⟨"op", .operator (BinaryOp.all.map BinaryOp.symbol), false⟩,
      ⟨"left", .variant .expr, false⟩, ⟨"right", .variant .expr, false⟩]
  | cond =>
    [⟨"condition", .variant .expr, false⟩, ⟨"consequence", .record block, false⟩,
      ⟨"alternative", .record block, true⟩]
  | call => [⟨"function", .variant .expr, false⟩, ⟨"arguments", .list (.variant .expr), false⟩]
  | index => [⟨"left", .variant .expr, false⟩, ⟨"index", .variant .expr, false⟩]

/-- The names of the fields. -/
def Record.names (r : Record) : List String := r.fields.map Field.name

/-- The tags of a variant, with the forms of the contents. -/
def Variant.tags : Variant → List (String × Form)
  | expr =>
    [("Identifier", .text), ("Integer", .integer), ("String", .text), ("Boolean", .truth),
      ("Array", .list (.variant expr)), ("Prefix", .record .unary), ("Infix", .record .binary),
      ("If", .record .cond), ("Function", .record .literal), ("Call", .record .call),
      ("Index", .record .index)]
  | stmt =>
    [("Let", .record .binding), ("Return", .variant .expr), ("Expression", .variant .expr)]

namespace Form

/-- The form of a program. -/
def program : Form := .record .block

/-- The form of an item of an array, by its position. -/
def item? : Form → Nat → Option Form
  | .list f, _ => some f
  | .record r, i => r.fields[i]?.map Field.form
  | _, _ => none

/-- The form of a member of an object, by its key; none if the member is passed over. -/
def member? : Form → String → Option Form
  | .record r, key => (r.fields.find? (·.name == key)).map Field.form
  | .variant x, key => x.tags.lookup key
  | _, _ => none

end Form

mutual

/-- How deep a document of a form nests, outside what is passed over. -/
def Json.nestingAs : Json → Form → Nat
  | .null, _ | .bool _, _ | .number _, _ | .string _, _ => 0
  | .array vs, f => Json.itemsNestingAs vs f 0 + 1
  | .object ms, f => Json.membersNestingAs ms f + 1
termination_by structural v => v

/-- How deep the items from a position on nest. -/
def Json.itemsNestingAs : List Json → Form → Nat → Nat
  | [], _, _ => 0
  | v :: vs, f, i => max ((f.item? i).elim 0 v.nestingAs) (Json.itemsNestingAs vs f (i + 1))
termination_by structural vs => vs

/-- How deep the members nest. -/
def Json.membersNestingAs : List (Option String × Json) → Form → Nat
  | [], _ => 0
  | (key, v) :: ms, f =>
    max ((key.bind f.member?).elim 0 v.nestingAs) (Json.membersNestingAs ms f)
termination_by structural ms => ms

end

end Monkey
