import Monkey.Syntax.Basic

/-!
# Monkey — what a tree does with its frame

Evaluation goes down a tree with one frame in hand and does three things with it: an
identifier is read from it, a `let` writes to it, and a function literal captures it.
What stands inside a function literal is evaluated in other frames, so the accesses of
a tree lie outside its function literals.
-/

namespace Monkey

variable {ι : Type}

/-- One use that a tree makes of the frame it is evaluated in. -/
inductive Access (ι : Type) where
  | read (x : String)
  | write (x : String)
  | capture (f : FnLiteral ι)

mutual

/-- The accesses of an expression. -/
def Expr.accesses : Expr ι → List (Access ι)
  | .ident x => [.read x]
  | .fn f => [.capture f]
  | .int _ | .str _ | .bool _ => []
  | .array es => Expr.accessesList es
  | .unary _ e => e.accesses
  | .binary _ l r => l.accesses ++ r.accesses
  | .cond c yes none => c.accesses ++ Stmt.accessesList yes
  | .cond c yes (some no) => c.accesses ++ (Stmt.accessesList yes ++ Stmt.accessesList no)
  | .call f es => f.accesses ++ Expr.accessesList es
  | .index l i => l.accesses ++ i.accesses
termination_by structural e => e

/-- Those of a list of expressions. -/
def Expr.accessesList : List (Expr ι) → List (Access ι)
  | [] => []
  | e :: es => e.accesses ++ Expr.accessesList es
termination_by structural es => es

/-- Those of a statement. -/
def Stmt.accesses : Stmt ι → List (Access ι)
  | .bind x e => .write x :: e.accesses
  | .ret e => e.accesses
  | .expr e => e.accesses
termination_by structural s => s

/-- Those of a block. -/
def Stmt.accessesList : List (Stmt ι) → List (Access ι)
  | [] => []
  | s :: ss => s.accesses ++ Stmt.accessesList ss
termination_by structural ss => ss

end

end Monkey
