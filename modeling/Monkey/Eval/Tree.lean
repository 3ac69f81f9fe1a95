import Monkey.Eval.Machine

/-!
# Monkey — evaluation of a tree

Evaluation goes down the tree, so it takes the meaning of a call as a parameter:
`Expr.eval call` and its companions are structural recursions that hand an
evaluated callee and its evaluated arguments to `call`.

Operands, arguments and elements are evaluated left to right and the first
interrupt wins. An error travels to the end of the run. A `return` travels to
the nearest call, program or `let`, which takes its value.
-/

namespace Monkey

variable {ι : Type}

section Trees

variable (call : Value ι → List (Value ι) → EvalM ι (Value ι)) (env : FrameId)

mutual

/-- Evaluates an expression in a frame. -/
def Expr.eval : Expr ι → EvalM ι (Value ι)
  | .ident x => EvalM.identifier env x
  | .int n => pure (.int n)
  | .str s => pure (.str s)
  | .bool b => pure (.bool b)
  | .array es => do
    let vs ← Expr.evalList es
    return .array vs
  | .unary op e => do
    let v ← e.eval
    EvalM.ofExcept (op.apply v)
  | .binary op l r => do
    let v ← l.eval
    let w ← r.eval
    EvalM.ofExcept (op.apply v w)
  | .cond c yes none => do
    let v ← c.eval
    if v.truthy then Stmt.evalFrom .null yes else return .null
  | .cond c yes (some no) => do
    let v ← c.eval
    if v.truthy then Stmt.evalFrom .null yes else Stmt.evalFrom .null no
  | .fn f => pure (.closure f env)
  | .call f es => do
    let callee ← f.eval
    let args ← Expr.evalList es
    call callee args
  | .index l i => do
    let v ← l.eval
    let w ← i.eval
    EvalM.ofExcept (v.index w)
termination_by structural e => e

/-- Evaluates expressions first to last. -/
def Expr.evalList : List (Expr ι) → EvalM ι (List (Value ι))
  | [] => pure []
  | e :: es => do
    let v ← e.eval
    let vs ← Expr.evalList es
    return v :: vs
termination_by structural es => es

/-- Executes a statement; its value is that of its expression. -/
def Stmt.eval : Stmt ι → EvalM ι (Value ι)
  | .bind x e => do
    let v ← EvalM.landed e.eval
    EvalM.bindName env x v
    return v
  | .ret e => do
    let v ← e.eval
    throw (.returned v)
  | .expr e => e.eval
termination_by structural s => s

/-- Executes statements in order. The value is that of the last one, or the
given value if there is none; an interrupt of a statement ends them all. -/
def Stmt.evalFrom (last : Value ι) : List (Stmt ι) → EvalM ι (Value ι)
  | [] => pure last
  | s :: ss => do
    let v ← s.eval
    Stmt.evalFrom v ss
termination_by structural ss => ss

end

/-- Executes a block: null if it is empty. -/
def Block.eval (b : Block ι) : EvalM ι (Value ι) := Stmt.evalFrom call env .null b

/-- Executes the statements of a program in order. A `return` ends the program
with its value. -/
def Program.evalFrom (last : Value ι) : List (Stmt ι) → EvalM ι (Value ι)
  | [] => pure last
  | s :: ss => do
    match ← EvalM.outcome (s.eval call env) with
    | .ok v => Program.evalFrom v ss
    | .error (.returned v) => return v
    | .error (.error e) => EvalM.fail e

/-- Executes a program: null if it is empty. -/
def Program.eval (p : Program ι) : EvalM ι (Value ι) :=
  Program.evalFrom call env .null p.statements

end Trees

/-! ## Phrases -/

/-- A piece of a program that can be evaluated by itself. -/
inductive Phrase (ι : Type) where
  | program (p : Program ι)
  | block (b : Block ι)
  | statement (s : Stmt ι)
  | expression (e : Expr ι)

/-- Evaluates a phrase in a frame. -/
def Phrase.eval (call : Value ι → List (Value ι) → EvalM ι (Value ι)) (env : FrameId) :
    Phrase ι → EvalM ι (Value ι)
  | .program p => p.eval call env
  | .block b => Block.eval call env b
  | .statement s => s.eval call env
  | .expression e => e.eval call env

end Monkey
