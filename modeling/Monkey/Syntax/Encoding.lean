import Monkey.Json.Tree
import Monkey.Syntax.Basic

/-!
# Monkey — trees as JSON documents

Every expression and statement is an object with one member, whose key is the
form of the node; blocks and programs are objects with their statements; an
operator is its symbol. A missing second branch is written as null and labels
are not written.
-/

namespace Monkey

variable {ι : Type}

mutual

/-- An expression as a document. -/
def Expr.toJson : Expr ι → Json
  | .ident x => .ofMembers [("Identifier", .ofString x)]
  | .int n => .ofMembers [("Integer", .ofInt n.toInt)]
  | .str s => .ofMembers [("String", .ofString s)]
  | .bool b => .ofMembers [("Boolean", .bool b)]
  | .array es => .ofMembers [("Array", .array (Expr.toJsonList es))]
  | .unary op e =>
    .ofMembers [("Prefix", .ofMembers [("op", .ofString op.symbol), ("right", e.toJson)])]
  | .binary op l r =>
    .ofMembers [("Infix",
      .ofMembers [("op", .ofString op.symbol), ("left", l.toJson), ("right", r.toJson)])]
  | .cond c yes none =>
    .ofMembers [("If", .ofMembers [("condition", c.toJson),
      ("consequence", .ofMembers [("statements", .array (Stmt.toJsonList yes))]),
      ("alternative", .null)])]
  | .cond c yes (some no) =>
    .ofMembers [("If", .ofMembers [("condition", c.toJson),
      ("consequence", .ofMembers [("statements", .array (Stmt.toJsonList yes))]),
      ("alternative", .ofMembers [("statements", .array (Stmt.toJsonList no))])])]
  | .fn f => .ofMembers [("Function", f.toJson)]
  | .call f es =>
    .ofMembers [("Call",
      .ofMembers [("function", f.toJson), ("arguments", .array (Expr.toJsonList es))])]
  | .index l i => .ofMembers [("Index", .ofMembers [("left", l.toJson), ("index", i.toJson)])]
termination_by structural e => e

/-- Expressions as documents. -/
def Expr.toJsonList : List (Expr ι) → List Json
  | [] => []
  | e :: es => e.toJson :: Expr.toJsonList es
termination_by structural es => es

/-- A statement as a document. -/
def Stmt.toJson : Stmt ι → Json
  | .bind x e => .ofMembers [("Let", .ofMembers [("name", .ofString x), ("value", e.toJson)])]
  | .ret e => .ofMembers [("Return", e.toJson)]
  | .expr e => .ofMembers [("Expression", e.toJson)]
termination_by structural s => s

/-- Statements as documents. -/
def Stmt.toJsonList : List (Stmt ι) → List Json
  | [] => []
  | s :: ss => s.toJson :: Stmt.toJsonList ss
termination_by structural ss => ss

/-- A function literal as a document. -/
def FnLiteral.toJson : FnLiteral ι → Json
  | ⟨_, ps, body⟩ =>
    .ofMembers [("parameters", .array (ps.map .ofString)),
      ("body", .ofMembers [("statements", .array (Stmt.toJsonList body))])]
termination_by structural f => f

end

/-- A block as a document. -/
def Block.toJson (b : Block ι) : Json := .ofMembers [("statements", .array (Stmt.toJsonList b))]

/-- A program as a document. -/
def Program.toJson (p : Program ι) : Json := Block.toJson p.statements

/-- The text of a program's document. -/
def Program.encode (p : Program ι) : String := p.toJson.compact

end Monkey
