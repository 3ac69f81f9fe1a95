import Monkey.Syntax.Schema

/-!
# Monkey — changes of a program document

A program can be said in many documents. `Form.Rewords` lists the changes of a document
that leave what it says alone, and `Form.Spoils` those that leave it no document of its
form. Each is made at one node, anywhere in the part of the document that is looked at.
-/

namespace Monkey

/-- The members of an object that has the values as its fields, in their order. -/
def Record.members (r : Record) (vs : List Json) : List (Option String × Json) :=
  (r.names.map some).zip vs

namespace Form

/-- The tags that an object or a string of a form may carry. -/
def tags : Form → List String
  | .operator symbols => symbols
  | .variant x => x.tags.map Prod.fst
  | _ => []

/-- Data of the form is told by a tag. -/
def IsTagged : Form → Prop
  | .operator _ | .variant _ => True
  | _ => False

/-- A change at one node of a document that leaves what it says alone. -/
inductive Rewords : Form → Json → Json → Prop
  /-- The members of a record take another order. -/
  | permute {r : Record} {ms ms' : List (Option String × Json)} :
      ms.Perm ms' → Rewords (.record r) (.object ms) (.object ms')
  /-- A record gets a member that is no field, with any value. -/
  | insert {r : Record} {key : String} {v : Json} {ms ns : List (Option String × Json)} :
      key ∉ r.names → Rewords (.record r) (.object (ms ++ ns)) (.object (ms ++ (some key, v) :: ns))
  /-- A record becomes the array of its fields. -/
  | enumerate {r : Record} {vs : List Json} :
      vs.length = r.fields.length → Rewords (.record r) (.object (r.members vs)) (.array vs)
  /-- The symbol of an operator becomes the key of an object. -/
  | unfold {symbols : List String} {s : String} :
      Rewords (.operator symbols) (.string (some s)) (.object [(some s, .null)])
  /-- A field that is null and may be left out is left out. -/
  | drop {r : Record} {field : Field} {ms ns : List (Option String × Json)} :
      field ∈ r.fields → field.optional → (∀ m ∈ ms ++ ns, m.1 ≠ some field.name) →
      Rewords (.record r) (.object (ms ++ (some field.name, .null) :: ns)) (.object (ms ++ ns))
  | item {f : Form} {v w : Json} {vs ws : List Json} :
      Rewords f v w → Rewords (.list f) (.array (vs ++ v :: ws)) (.array (vs ++ w :: ws))
  | member {r : Record} {field : Field} {v w : Json} {ms ns : List (Option String × Json)} :
      field ∈ r.fields → Rewords field.form v w →
      Rewords (.record r) (.object (ms ++ (some field.name, v) :: ns))
        (.object (ms ++ (some field.name, w) :: ns))
  | element {r : Record} {field : Field} {v w : Json} {vs ws : List Json} :
      r.fields[vs.length]? = some field → Rewords field.form v w →
      Rewords (.record r) (.array (vs ++ v :: ws)) (.array (vs ++ w :: ws))
  | content {x : Variant} {tag : String} {f : Form} {v w : Json} :
      (tag, f) ∈ x.tags → Rewords f v w →
      Rewords (.variant x) (.object [(some tag, v)]) (.object [(some tag, w)])

/-- A change at one node of a document that leaves it no document of its form. -/
inductive Spoils : Form → Json → Json → Prop
  /-- A record loses a field that may not be left out. -/
  | remove {r : Record} {field : Field} {v : Json} {ms ns : List (Option String × Json)} :
      field ∈ r.fields → field.optional = false →
      Spoils (.record r) (.object (ms ++ (some field.name, v) :: ns)) (.object (ms ++ ns))
  /-- A record gets a field that it has already. -/
  | duplicate {r : Record} {field : Field} {v w : Json} {ms ns : List (Option String × Json)} :
      field ∈ r.fields → (some field.name, v) ∈ ms ++ ns →
      Spoils (.record r) (.object (ms ++ ns)) (.object (ms ++ (some field.name, w) :: ns))
  /-- An array of fields loses some or gets more. -/
  | resize {r : Record} {vs ws : List Json} :
      ws.length ≠ vs.length → Spoils (.record r) (.array vs) (.array ws)
  /-- An object with a tag gets a second key. -/
  | crowd {f : Form} {m m' : Option String × Json} {ms ns : List (Option String × Json)} :
      f.IsTagged → Spoils f (.object ms) (.object (m :: m' :: ns))
  /-- A tag becomes a key that is no tag. -/
  | retag {f : Form} {key : Option String} {v : Json} {ms : List (Option String × Json)} :
      f.IsTagged → (∀ tag ∈ f.tags, key ≠ some tag) → Spoils f (.object ms) (.object [(key, v)])
  /-- The symbol of an operator becomes a string that is no symbol. -/
  | resymbol {symbols : List String} {s : Option String} {key : Option String} :
      (∀ symbol ∈ symbols, key ≠ some symbol) →
      Spoils (.operator symbols) (.string s) (.string key)
  /-- An integer becomes what is no integer of 64 bits. -/
  | renumber {lexeme : String} {v : Json} :
      (∀ n : Int64, v ≠ .ofInt n.toInt) → Spoils .integer (.number lexeme) v
  | item {f : Form} {v w : Json} {vs ws : List Json} :
      Spoils f v w → Spoils (.list f) (.array (vs ++ v :: ws)) (.array (vs ++ w :: ws))
  | member {r : Record} {field : Field} {v w : Json} {ms ns : List (Option String × Json)} :
      field ∈ r.fields → Spoils field.form v w →
      Spoils (.record r) (.object (ms ++ (some field.name, v) :: ns))
        (.object (ms ++ (some field.name, w) :: ns))
  | element {r : Record} {field : Field} {v w : Json} {vs ws : List Json} :
      r.fields[vs.length]? = some field → Spoils field.form v w →
      Spoils (.record r) (.array (vs ++ v :: ws)) (.array (vs ++ w :: ws))
  | content {x : Variant} {tag : String} {f : Form} {v w : Json} :
      (tag, f) ∈ x.tags → Spoils f v w →
      Spoils (.variant x) (.object [(some tag, v)]) (.object [(some tag, w)])

end Form

end Monkey
