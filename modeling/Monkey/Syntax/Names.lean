import Monkey.Syntax.Basic

/-!
# Monkey — the names a tree binds

A `let` binds its name in the frame its statement is executed in. The statements
inside a function literal are executed in a frame of their own, at every call,
so the names bound in the frame of a phrase are those of the `let` statements
outside its function literals.
-/

namespace Monkey

variable {ι : Type}

mutual

/-- The names of the `let` statements of an expression that lie outside its
function literals. -/
def Expr.lets : Expr ι → List String
  | .ident _ | .int _ | .str _ | .bool _ | .fn _ => []
  | .array es => Expr.letsList es
  | .unary _ e => e.lets
  | .binary _ l r => l.lets ++ r.lets
  | .cond c yes none => c.lets ++ Stmt.letsList yes
  | .cond c yes (some no) => c.lets ++ (Stmt.letsList yes ++ Stmt.letsList no)
  | .call f es => f.lets ++ Expr.letsList es
  | .index l i => l.lets ++ i.lets
termination_by structural e => e

/-- The names of a list of expressions. -/
def Expr.letsList : List (Expr ι) → List String
  | [] => []
  | e :: es => e.lets ++ Expr.letsList es
termination_by structural es => es

/-- The names of a statement. -/
def Stmt.lets : Stmt ι → List String
  | .bind x e => x :: e.lets
  | .ret e => e.lets
  | .expr e => e.lets
termination_by structural s => s

/-- The names of a block. -/
def Stmt.letsList : List (Stmt ι) → List String
  | [] => []
  | s :: ss => s.lets ++ Stmt.letsList ss
termination_by structural ss => ss

end

end Monkey
