import Monkey.Json.Token

/-!
# Monkey — JSON documents as trees

A document is a tree of values; an object keeps its members in the order
written, repeated keys included. `Json.tokens` writes a tree as a row of tokens
and `Json.ofTokens?` reads one back. The reader keeps the brackets that are
still open in a list, so nesting costs it no stack.
-/

namespace Monkey

/-- A value of a document. A string or key without text holds a surrogate
without partner. -/
inductive Json where
  | null
  | bool (b : Bool)
  | number (lexeme : String)
  | string (text : Option String)
  | array (items : List Json)
  | object (members : List (Option String × Json))

namespace Json

instance : Inhabited Json := ⟨null⟩

/-- A string that has a text. -/
def ofString (s : String) : Json := string (some s)

/-- An integer in decimal. -/
def ofInt (n : Int) : Json := number n.repr

/-- An object from keys that have texts. -/
def ofMembers (members : List (String × Json)) : Json :=
  object (members.map fun (k, v) => (some k, v))

/-! ## Writing -/

mutual

/-- The tokens of a value. -/
def tokens : Json → List Token
  | null => [.null]
  | bool b => [.bool b]
  | number lexeme => [.number lexeme]
  | string text => [.string text]
  | array [] => [.openBracket, .closeBracket]
  | array (v :: vs) => .openBracket :: v.tokens ++ itemTokens vs ++ [.closeBracket]
  | object [] => [.openBrace, .closeBrace]
  | object ((k, v) :: ms) =>
    .openBrace :: .string k :: .colon :: v.tokens ++ memberTokens ms ++ [.closeBrace]
termination_by structural v => v

/-- The tokens of the items of an array after the first. -/
def itemTokens : List Json → List Token
  | [] => []
  | v :: vs => .comma :: v.tokens ++ itemTokens vs
termination_by structural vs => vs

/-- The tokens of the members of an object after the first. -/
def memberTokens : List (Option String × Json) → List Token
  | [] => []
  | (k, v) :: ms => .comma :: .string k :: .colon :: v.tokens ++ memberTokens ms
termination_by structural ms => ms

end

/-- A value as text, without white space. -/
def compact (v : Json) : String := String.join (v.tokens.map Token.written)

/-! ## Reading -/

/-- An open bracket with what has been read inside it, newest first. -/
inductive Open where
  | array (items : List Json)
  /-- An object within a member: the members before it, and its key. -/
  | object (members : List (Option String × Json)) (key : Option String)

/-- What a reader waits for, with the open brackets, innermost first. -/
inductive Reader where
  /-- A value; right after an opening bracket also the closing one. -/
  | value (first : Bool) (opened : List Open)
  /-- A key; right after an opening brace also the closing one. -/
  | key (first : Bool) (members : List (Option String × Json)) (opened : List Open)
  | colon (members : List (Option String × Json)) (key : Option String) (opened : List Open)
  /-- A comma or a closing bracket behind a value, or the end of the document. -/
  | after (v : Json) (opened : List Open)

namespace Reader

/-- Reads one token. -/
def step? (r : Reader) (t : Token) : Option Reader :=
  match r, t with
  | value _ opened, .null => some (after .null opened)
  | value _ opened, .bool b => some (after (.bool b) opened)
  | value _ opened, .number lexeme => some (after (.number lexeme) opened)
  | value _ opened, .string text => some (after (.string text) opened)
  | value _ opened, .openBracket => some (value true (.array [] :: opened))
  | value _ opened, .openBrace => some (key true [] opened)
  | value true (.array [] :: opened), .closeBracket => some (after (.array []) opened)
  | key _ members opened, .string k => some (colon members k opened)
  | key true _ opened, .closeBrace => some (after (.object []) opened)
  | colon members k opened, .colon => some (value false (.object members k :: opened))
  | after v (.array items :: opened), .comma => some (value false (.array (v :: items) :: opened))
  | after v (.array items :: opened), .closeBracket =>
    some (after (.array (v :: items).reverse) opened)
  | after v (.object members k :: opened), .comma => some (key false ((k, v) :: members) opened)
  | after v (.object members k :: opened), .closeBrace =>
    some (after (.object ((k, v) :: members).reverse) opened)
  | _, _ => none

/-- The document of a reader that has read one. -/
def finish? : Reader → Option Json
  | after v [] => some v
  | _ => none

end Reader

/-- The document of a row of tokens. -/
def ofTokens? (ts : List Token) : Option Json :=
  (ts.foldlM Reader.step? (Reader.value false [])).bind Reader.finish?

/-- The document of a text. -/
def parse? (text : String) : Option Json := (Token.scan? text.toList).bind ofTokens?

end Json

end Monkey
