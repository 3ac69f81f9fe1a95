import Monkey.Syntax.Basic

/-!
# Monkey — the returns a tree exposes

A `return` statement is exposed in a tree where it is reached without entering a
function literal and without entering the value of a `let`: a call and a `let` take
the value of a `return` for their own. It can stand in a branch of a condition
anywhere inside an operand, an argument, an element or the value of another `return`.
-/

namespace Monkey

variable {ι : Type}

mutual

/-- The values of the `return` statements that an expression exposes. -/
def Expr.returns : Expr ι → List (Expr ι)
  | .ident _ | .int _ | .str _ | .bool _ | .fn _ => []
  | .array es => Expr.returnsList es
  | .unary _ e => e.returns
  | .binary _ l r => l.returns ++ r.returns
  | .cond c yes none => c.returns ++ Stmt.returnsList yes
  | .cond c yes (some no) => c.returns ++ (Stmt.returnsList yes ++ Stmt.returnsList no)
  | .call f es => f.returns ++ Expr.returnsList es
  | .index l i => l.returns ++ i.returns
termination_by structural e => e

/-- Those of a list of expressions. -/
def Expr.returnsList : List (Expr ι) → List (Expr ι)
  | [] => []
  | e :: es => e.returns ++ Expr.returnsList es
termination_by structural es => es

/-- Those of a statement: a `return` exposes itself. -/
def Stmt.returns : Stmt ι → List (Expr ι)
  | .bind _ _ => []
  | .ret e => e :: e.returns
  | .expr e => e.returns
termination_by structural s => s

/-- Those of a block. -/
def Stmt.returnsList : List (Stmt ι) → List (Expr ι)
  | [] => []
  | s :: ss => s.returns ++ Stmt.returnsList ss
termination_by structural ss => ss

end

end Monkey
