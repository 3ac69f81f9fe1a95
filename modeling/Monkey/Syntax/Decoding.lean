import Monkey.Json.Shape
import Monkey.Syntax.Basic

/-!
# Monkey — trees from JSON documents

Reads what `Program.toJson` writes, and more: records with their fields in any
order, with members of other names or as arrays, operators as objects with the
symbol as key and null as content, and conditions without the member for the
second branch.

Every reader takes the number of brackets that may be open within its value. A
bracket that it looks into takes one of them and a value that needs more than
there are is refused; what is passed over counts nothing. A whole document may
nest `documentNesting` brackets.
-/

namespace Monkey

/-- How many brackets may be open at once in a document. -/
def documentNesting : Nat := 127

/-- The symbol of an operator: a string, or the key of an object whose content
is null. -/
def operatorSymbol? : Nat → Json → Option String
  | _ + 1, .object [(symbol, .null)] => symbol
  | _, json => json.text?

/-- An unary operator. -/
def UnaryOp.ofJson? (room : Nat) (json : Json) : Option UnaryOp :=
  (operatorSymbol? room json).bind UnaryOp.ofSymbol?

/-- A binary operator. -/
def BinaryOp.ofJson? (room : Nat) (json : Json) : Option BinaryOp :=
  (operatorSymbol? room json).bind BinaryOp.ofSymbol?

/-- A list of names. -/
def namesOfJson? : Nat → Json → Option (List String)
  | _ + 1, json => do (← json.items?).mapM Json.text?
  | 0, _ => none

mutual

/-- An expression. -/
def Expr.ofJson? : Nat → Json → Option (Expr Unit)
  | room + 1, json => do
    let (tag, content) ← json.variant?
    match tag with
    | "Identifier" => return .ident (← content.text?)
    | "Integer" => return .int (← content.int64?)
    | "String" => return .str (← content.text?)
    | "Boolean" => return .bool (← content.bool?)
    | "Array" => return .array (← Expr.listOfJson? room content)
    | "Prefix" => Expr.unaryOfJson? room content
    | "Infix" => Expr.binaryOfJson? room content
    | "If" => Expr.condOfJson? room content
    | "Function" => return .fn (← FnLiteral.ofJson? room content)
    | "Call" => Expr.callOfJson? room content
    | "Index" => Expr.indexOfJson? room content
    | _ => none
  | 0, _ => none
termination_by structural room => room

/-- A list of expressions. -/
def Expr.listOfJson? : Nat → Json → Option (List (Expr Unit))
  | room + 1, json => do (← json.items?).mapM (Expr.ofJson? room)
  | 0, _ => none
termination_by structural room => room

/-- An operator before an operand, with the operand. -/
def Expr.unaryOfJson? : Nat → Json → Option (Expr Unit)
  | room + 1, json => do
    match ← json.fields? ["op", "right"] with
    | [some op, some e] => return .unary (← UnaryOp.ofJson? room op) (← Expr.ofJson? room e)
    | _ => none
  | 0, _ => none
termination_by structural room => room

/-- An operator between two operands, with the operands. -/
def Expr.binaryOfJson? : Nat → Json → Option (Expr Unit)
  | room + 1, json => do
    match ← json.fields? ["op", "left", "right"] with
    | [some op, some l, some r] =>
      let op ← BinaryOp.ofJson? room op
      return .binary op (← Expr.ofJson? room l) (← Expr.ofJson? room r)
    | _ => none
  | 0, _ => none
termination_by structural room => room

/-- A condition. -/
def Expr.condOfJson? : Nat → Json → Option (Expr Unit)
  | room + 1, json => do
    match ← json.fields? ["condition", "consequence", "alternative"] with
    | [some c, some yes, no] =>
      let c ← Expr.ofJson? room c
      let yes ← Block.ofJson? room yes
      match no with
      | none | some .null => return .cond c yes none
      | some no => return .cond c yes (some (← Block.ofJson? room no))
    | _ => none
  | 0, _ => none
termination_by structural room => room

/-- A call. -/
def Expr.callOfJson? : Nat → Json → Option (Expr Unit)
  | room + 1, json => do
    match ← json.fields? ["function", "arguments"] with
    | [some f, some es] => return .call (← Expr.ofJson? room f) (← Expr.listOfJson? room es)
    | _ => none
  | 0, _ => none
termination_by structural room => room

/-- An element of an array. -/
def Expr.indexOfJson? : Nat → Json → Option (Expr Unit)
  | room + 1, json => do
    match ← json.fields? ["left", "index"] with
    | [some l, some i] => return .index (← Expr.ofJson? room l) (← Expr.ofJson? room i)
    | _ => none
  | 0, _ => none
termination_by structural room => room

/-- A statement. -/
def Stmt.ofJson? : Nat → Json → Option (Stmt Unit)
  | room + 1, json => do
    let (tag, content) ← json.variant?
    match tag with
    | "Let" => Stmt.bindOfJson? room content
    | "Return" => return .ret (← Expr.ofJson? room content)
    | "Expression" => return .expr (← Expr.ofJson? room content)
    | _ => none
  | 0, _ => none
termination_by structural room => room

/-- A list of statements. -/
def Stmt.listOfJson? : Nat → Json → Option (List (Stmt Unit))
  | room + 1, json => do (← json.items?).mapM (Stmt.ofJson? room)
  | 0, _ => none
termination_by structural room => room

/-- A name with the value that it is bound to. -/
def Stmt.bindOfJson? : Nat → Json → Option (Stmt Unit)
  | room + 1, json => do
    match ← json.fields? ["name", "value"] with
    | [some x, some e] => return .bind (← x.text?) (← Expr.ofJson? room e)
    | _ => none
  | 0, _ => none
termination_by structural room => room

/-- A block. -/
def Block.ofJson? : Nat → Json → Option (Block Unit)
  | room + 1, json => do
    match ← json.fields? ["statements"] with
    | [some ss] => Stmt.listOfJson? room ss
    | _ => none
  | 0, _ => none
termination_by structural room => room

/-- A function literal. -/
def FnLiteral.ofJson? : Nat → Json → Option (FnLiteral Unit)
  | room + 1, json => do
    match ← json.fields? ["parameters", "body"] with
    | [some ps, some body] => return ⟨(), ← namesOfJson? room ps, ← Block.ofJson? room body⟩
    | _ => none
  | 0, _ => none
termination_by structural room => room

end

/-- A program. -/
def Program.ofJson? (room : Nat) (json : Json) : Option (Program Unit) :=
  (Block.ofJson? room json).map Program.mk

/-- The program of a text. -/
def Program.decode? (text : String) : Option (Program Unit) :=
  (Json.parse? text).bind (Program.ofJson? documentNesting)

end Monkey
