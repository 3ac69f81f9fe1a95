import Monkey.Syntax.Basic
import Monkey.Text.Quoted

/-!
# Monkey — trees as source text

The canonical text of a tree: operators and indexing in parentheses, strings
quoted, the statements of a program on lines of their own and those of a block
on one line. Labels are not written.
-/

namespace Monkey

variable {ι : Type}

/-- The canonical decimal text of an integer. -/
def intText (n : Int64) : String := toString n.toInt

/-- The text of a truth value. -/
def boolText (b : Bool) : String := if b then "true" else "false"

mutual

/-- The text of an expression. -/
def Expr.source : Expr ι → String
  | .ident x => x
  | .int n => intText n
  | .str s => Text.quote s
  | .bool b => boolText b
  | .array es => "[" ++ ", ".intercalate (Expr.sources es) ++ "]"
  | .unary op e => "(" ++ op.symbol ++ e.source ++ ")"
  | .binary op l r => "(" ++ l.source ++ " " ++ op.symbol ++ " " ++ r.source ++ ")"
  | .cond c yes none =>
    "if " ++ c.source ++ " \x7b " ++ " ".intercalate (Stmt.sources yes) ++ " \x7d"
  | .cond c yes (some no) =>
    "if " ++ c.source ++ " \x7b " ++ " ".intercalate (Stmt.sources yes) ++ " \x7d else \x7b " ++
      " ".intercalate (Stmt.sources no) ++ " \x7d"
  | .fn f => f.source
  | .call f es => f.source ++ "(" ++ ", ".intercalate (Expr.sources es) ++ ")"
  | .index l i => "(" ++ l.source ++ "[" ++ i.source ++ "])"
termination_by structural e => e

/-- The texts of a list of expressions. -/
def Expr.sources : List (Expr ι) → List String
  | [] => []
  | e :: es => e.source :: Expr.sources es
termination_by structural es => es

/-- The text of a statement. -/
def Stmt.source : Stmt ι → String
  | .bind x e => "let " ++ x ++ " = " ++ e.source ++ ";"
  | .ret e => "return " ++ e.source ++ ";"
  | .expr e => e.source
termination_by structural s => s

/-- The texts of a list of statements. -/
def Stmt.sources : List (Stmt ι) → List String
  | [] => []
  | s :: ss => s.source :: Stmt.sources ss
termination_by structural ss => ss

/-- The text of a function literal. -/
def FnLiteral.source : FnLiteral ι → String
  | ⟨_, ps, body⟩ =>
    "fn(" ++ ", ".intercalate ps ++ ") \x7b " ++ " ".intercalate (Stmt.sources body) ++ " \x7d"
termination_by structural f => f

end

/-- The text of a block, its statements on one line. -/
def Block.source (b : Block ι) : String := " ".intercalate (Stmt.sources b)

/-- The text of a program, a statement a line. -/
def Program.source (p : Program ι) : String := "\n".intercalate (Stmt.sources p.statements)

end Monkey
