import Monkey.Syntax.Basic

/-!
# Monkey — numbering the function literals of a tree

Labels are given out in the order in which the literals begin in the text, outer
before inner, from a number on; the next free number comes back beside the tree.
No two literals of the numbered tree share a label, and trees numbered one after
the other share none either, so a label is the identity of one literal of one
tree.
-/

namespace Monkey

/-- The supply of labels: the next one not yet given out. -/
abbrev Labelling := StateM Nat

/-- Takes the next label. -/
def Labelling.fresh : Labelling Nat := modifyGet fun n => (n, n + 1)

variable {ι : Type}

mutual

/-- Numbers the literals of an expression. -/
def Expr.number : Expr ι → Labelling (Expr Nat)
  | .ident x => pure (.ident x)
  | .int n => pure (.int n)
  | .str s => pure (.str s)
  | .bool b => pure (.bool b)
  | .array es => return .array (← Expr.numberList es)
  | .unary op e => return .unary op (← e.number)
  | .binary op l r => return .binary op (← l.number) (← r.number)
  | .cond c yes none => return .cond (← c.number) (← Stmt.numberList yes) none
  | .cond c yes (some no) =>
    return .cond (← c.number) (← Stmt.numberList yes) (some (← Stmt.numberList no))
  | .fn f => return .fn (← f.number)
  | .call f es => return .call (← f.number) (← Expr.numberList es)
  | .index l i => return .index (← l.number) (← i.number)
termination_by structural e => e

/-- Numbers the literals of a list of expressions, first to last. -/
def Expr.numberList : List (Expr ι) → Labelling (List (Expr Nat))
  | [] => pure []
  | e :: es => return (← e.number) :: (← Expr.numberList es)
termination_by structural es => es

/-- Numbers the literals of a statement. -/
def Stmt.number : Stmt ι → Labelling (Stmt Nat)
  | .bind x e => return .bind x (← e.number)
  | .ret e => return .ret (← e.number)
  | .expr e => return .expr (← e.number)
termination_by structural s => s

/-- Numbers the literals of a block, first to last. -/
def Stmt.numberList : List (Stmt ι) → Labelling (List (Stmt Nat))
  | [] => pure []
  | s :: ss => return (← s.number) :: (← Stmt.numberList ss)
termination_by structural ss => ss

/-- Gives a literal the next label, then numbers its body. -/
def FnLiteral.number : FnLiteral ι → Labelling (FnLiteral Nat)
  | ⟨_, ps, body⟩ => return ⟨← Labelling.fresh, ps, ← Stmt.numberList body⟩
termination_by structural f => f

end

/-- Numbers the literals of a program. -/
def Program.number (p : Program ι) : Labelling (Program Nat) :=
  return ⟨← Stmt.numberList p.statements⟩

end Monkey
