import Monkey.Eval.Tree
import Monkey.Proofs.Entry

/-!
# Monkey — the rules of evaluation

The meaning of programs as a relation, one group of rules for each kind of node
with a rule for each way its evaluation can go. `Evaluates limit depth task s r s'`
says that the task, begun in the state `s` with `depth` calls in progress, ends
with the result `r` in the state `s'`. The rules do not mention the evaluator. They
say by themselves what an operator gives (`UnaryOp.Gives`, `BinaryOp.Gives`,
`Value.IndexGives`), which binding a name sees (`Store.Sees`), and how deep calls
are: the body of a function is begun one call deeper, and nothing is counted down.
-/

namespace Monkey

variable {ι : Type}

/-! ## Values and operators -/

/-- Null and `false` are falsy, and nothing else is. -/
def Value.Falsy (v : Value ι) : Prop := v = .null ∨ v = .bool false

/-- The values that `==` and `!=` compare. -/
def Value.Primitive (v : Value ι) : Prop :=
  v.type = .integer ∨ v.type = .boolean ∨ v.type = .string ∨ v.type = .null

/-- The result of an integer operation whose mathematical value is `n`: the
64-bit integer of that value, or an overflow if there is none. -/
inductive Exact (operation : String) (n : Int) : Except EvalError (Value ι) → Prop
  | fits (a : Int64) : a.toInt = n → Exact operation n (.ok (.int a))
  | overflow : (∀ a : Int64, a.toInt ≠ n) → Exact operation n (.error (.overflow operation))

/-- What a unary operator gives on a value. -/
inductive UnaryOp.Gives : UnaryOp → Value ι → Except EvalError (Value ι) → Prop
  | notFalsy {v : Value ι} : v.Falsy → Gives .not v (.ok (.bool true))
  | notTruthy {v : Value ι} : ¬ v.Falsy → Gives .not v (.ok (.bool false))
  | neg {a : Int64} {r : Except EvalError (Value ι)} :
      Exact "negation" (-a.toInt) r → Gives .neg (.int a) r
  | negType {v : Value ι} : v.type ≠ .integer → Gives .neg v (.error (.unknownUnary .neg v.type))

/-- The operands on which a binary operator is defined: any two integers, two
strings to be joined, and two values that can be compared. -/
inductive BinaryOp.Defined : BinaryOp → Value ι → Value ι → Prop
  | integers (op : BinaryOp) (a b : Int64) : Defined op (.int a) (.int b)
  | strings (s t : String) : Defined .add (.str s) (.str t)
  | equality {op : BinaryOp} {v w : Value ι} :
      op.isEquality = true → v.Primitive → w.Primitive → Defined op v w

/-- What a binary operator gives on two values. -/
inductive BinaryOp.Gives : BinaryOp → Value ι → Value ι → Except EvalError (Value ι) → Prop
  | add {a b : Int64} {r : Except EvalError (Value ι)} :
      Exact "addition" (a.toInt + b.toInt) r → Gives .add (.int a) (.int b) r
  | sub {a b : Int64} {r : Except EvalError (Value ι)} :
      Exact "subtraction" (a.toInt - b.toInt) r → Gives .sub (.int a) (.int b) r
  | mul {a b : Int64} {r : Except EvalError (Value ι)} :
      Exact "multiplication" (a.toInt * b.toInt) r → Gives .mul (.int a) (.int b) r
  | divZero {a : Int64} : Gives .div (.int a) (.int 0) (.error .divisionByZero)
  | div {a b : Int64} {r : Except EvalError (Value ι)} :
      b.toInt ≠ 0 → Exact "division" (a.toInt.tdiv b.toInt) r → Gives .div (.int a) (.int b) r
  | lt {a b : Int64} : Gives .lt (.int a) (.int b) (.ok (.bool (decide (a.toInt < b.toInt))))
  | gt {a b : Int64} : Gives .gt (.int a) (.int b) (.ok (.bool (decide (b.toInt < a.toInt))))
  | join {s t : String} : Gives .add (.str s) (.str t) (.ok (.str (s ++ t)))
  | eqSame {v : Value ι} : v.Primitive → Gives .eq v v (.ok (.bool true))
  | eqOther {v w : Value ι} :
      v.Primitive → w.Primitive → v ≠ w → Gives .eq v w (.ok (.bool false))
  | neSame {v : Value ι} : v.Primitive → Gives .ne v v (.ok (.bool false))
  | neOther {v w : Value ι} :
      v.Primitive → w.Primitive → v ≠ w → Gives .ne v w (.ok (.bool true))
  | mismatch {op : BinaryOp} {v w : Value ι} : ¬ Defined op v w → v.type ≠ w.type →
      Gives op v w (.error (.typeMismatch v.type op w.type))
  | unknown {op : BinaryOp} {v w : Value ι} : ¬ Defined op v w → v.type = w.type →
      Gives op v w (.error (.unknownBinary v.type op w.type))

/-- What indexing gives. -/
inductive Value.IndexGives : Value ι → Value ι → Except EvalError (Value ι) → Prop
  | element {vs : List (Value ι)} {i : Int64} {v : Value ι} (n : Nat) :
      i.toInt = n → vs[n]? = some v → IndexGives (.array vs) (.int i) (.ok v)
  | outside {vs : List (Value ι)} {i : Int64} :
      i.toInt < 0 ∨ vs.length ≤ i.toInt → IndexGives (.array vs) (.int i) (.ok .null)
  | notIndexable {v w : Value ι} : v.type ≠ .array ∨ w.type ≠ .integer →
      IndexGives v w (.error (.notIndexable v.type))

/-- A name sees a value from a frame: that of the first frame outward which binds
the name. -/
inductive Store.Sees (s : Store ι) (x : String) (v : Value ι) : FrameId → Prop
  | here {id : FrameId} {f : Frame ι} :
      s.frames[id]? = some f → f.get? x = some v → Sees s x v id
  | outward {id p : FrameId} {f : Frame ι} :
      s.frames[id]? = some f → f.get? x = none → f.parent = some p → Sees s x v p → Sees s x v id

/-! ## Tasks and states -/

/-- Whether a task asks for one value or for a list of values. -/
inductive Kind where
  | value
  | values

/-- What a task of a kind asks for. -/
@[reducible] def Kind.Answer (ι : Type) : Kind → Type
  | value => Value ι
  | values => List (Value ι)

/-- What can be evaluated: a node of a tree in a frame, expressions in order, or
the application of a callee to arguments. -/
inductive Task (ι : Type) : Kind → Type where
  | expression (env : FrameId) (e : Expr ι) : Task ι .value
  | expressions (env : FrameId) (es : List (Expr ι)) : Task ι .values
  | statement (env : FrameId) (s : Stmt ι) : Task ι .value
  | block (env : FrameId) (b : Block ι) : Task ι .value
  | program (env : FrameId) (ss : List (Stmt ι)) : Task ι .value
  | apply (callee : Value ι) (args : List (Value ι)) : Task ι .value

/-- The task of evaluating a phrase in a frame. -/
def Phrase.task (env : FrameId) : Phrase ι → Task ι .value
  | .program p => .program env p.statements
  | .block b => .block env b
  | .statement s => .statement env s
  | .expression e => .expression env e

/-- What a run reads and leaves behind: the frames and the printed text. -/
structure State (ι : Type) where
  store : Store ι
  log : Printer

/-- The state after a name is bound in a frame. -/
def State.bind (s : State ι) (env : FrameId) (x : String) (v : Value ι) : State ι :=
  { s with store := s.store.bind env x v }

/-- The state in which the body of a function begins. -/
def State.enter (s : State ι) (f : FnLiteral ι) (env : FrameId) (args : List (Value ι)) :
    State ι :=
  { s with store := s.store.enter f env args }

/-! ## The rules -/

/-- How a task ends, under a limit, begun with a number of calls in progress. -/
inductive Evaluates (limit : Option Nat) : Nat → {k : Kind} → Task ι k → State ι →
    Except (Interrupt ι) (k.Answer ι) → State ι → Prop
  -- literals
  | int {d : Nat} {env : FrameId} {n : Int64} {s : State ι} :
      Evaluates limit d (.expression env (.int n)) s (.ok (.int n)) s
  | str {d : Nat} {env : FrameId} {t : String} {s : State ι} :
      Evaluates limit d (.expression env (.str t)) s (.ok (.str t)) s
  | bool {d : Nat} {env : FrameId} {b : Bool} {s : State ι} :
      Evaluates limit d (.expression env (.bool b)) s (.ok (.bool b)) s
  -- a function literal captures the current frame
  | fn {d : Nat} {env : FrameId} {f : FnLiteral ι} {s : State ι} :
      Evaluates limit d (.expression env (.fn f)) s (.ok (.closure f env)) s
  -- an identifier: the chain of frames, then the builtins
  | bound {d : Nat} {env : FrameId} {x : String} {v : Value ι} {s : State ι} :
      s.store.Sees x v env → Evaluates limit d (.expression env (.ident x)) s (.ok v) s
  | builtin {d : Nat} {env : FrameId} {b : Builtin} {s : State ι} :
      (∀ v, ¬ s.store.Sees b.name v env) →
      Evaluates limit d (.expression env (.ident b.name)) s (.ok (.builtin b)) s
  | unbound {d : Nat} {env : FrameId} {x : String} {s : State ι} :
      (∀ v, ¬ s.store.Sees x v env) → (∀ b : Builtin, b.name ≠ x) →
      Evaluates limit d (.expression env (.ident x)) s (.error (.error (.unbound x))) s
  -- an array: its elements in order
  | array {d : Nat} {env : FrameId} {es : List (Expr ι)} {vs : List (Value ι)} {s s' : State ι} :
      Evaluates limit d (.expressions env es) s (.ok vs) s' →
      Evaluates limit d (.expression env (.array es)) s (.ok (.array vs)) s'
  | arrayInterrupt {d : Nat} {env : FrameId} {es : List (Expr ι)} {i : Interrupt ι}
      {s s' : State ι} :
      Evaluates limit d (.expressions env es) s (.error i) s' →
      Evaluates limit d (.expression env (.array es)) s (.error i) s'
  -- a prefix operator
  | unary {d : Nat} {env : FrameId} {op : UnaryOp} {e : Expr ι} {v : Value ι}
      {r : Except EvalError (Value ι)} {s s' : State ι} :
      Evaluates limit d (.expression env e) s (.ok v) s' → op.Gives v r →
      Evaluates limit d (.expression env (.unary op e)) s (r.mapError .error) s'
  | unaryInterrupt {d : Nat} {env : FrameId} {op : UnaryOp} {e : Expr ι} {i : Interrupt ι}
      {s s' : State ι} :
      Evaluates limit d (.expression env e) s (.error i) s' →
      Evaluates limit d (.expression env (.unary op e)) s (.error i) s'
  -- an infix operator: left, then right
  | binary {d : Nat} {env : FrameId} {op : BinaryOp} {l r : Expr ι} {v w : Value ι}
      {q : Except EvalError (Value ι)} {s s₁ s' : State ι} :
      Evaluates limit d (.expression env l) s (.ok v) s₁ →
      Evaluates limit d (.expression env r) s₁ (.ok w) s' → op.Gives v w q →
      Evaluates limit d (.expression env (.binary op l r)) s (q.mapError .error) s'
  | binaryLeft {d : Nat} {env : FrameId} {op : BinaryOp} {l r : Expr ι} {i : Interrupt ι}
      {s s' : State ι} :
      Evaluates limit d (.expression env l) s (.error i) s' →
      Evaluates limit d (.expression env (.binary op l r)) s (.error i) s'
  | binaryRight {d : Nat} {env : FrameId} {op : BinaryOp} {l r : Expr ι} {v : Value ι}
      {i : Interrupt ι} {s s₁ s' : State ι} :
      Evaluates limit d (.expression env l) s (.ok v) s₁ →
      Evaluates limit d (.expression env r) s₁ (.error i) s' →
      Evaluates limit d (.expression env (.binary op l r)) s (.error i) s'
  -- a condition: one branch, or null
  | condInterrupt {d : Nat} {env : FrameId} {e : Expr ι} {yes : Block ι} {no : Option (Block ι)}
      {i : Interrupt ι} {s s' : State ι} :
      Evaluates limit d (.expression env e) s (.error i) s' →
      Evaluates limit d (.expression env (.cond e yes no)) s (.error i) s'
  | condYes {d : Nat} {env : FrameId} {e : Expr ι} {yes : Block ι} {no : Option (Block ι)}
      {v : Value ι} {o : Outcome ι} {s s₁ s' : State ι} :
      Evaluates limit d (.expression env e) s (.ok v) s₁ → ¬ v.Falsy →
      Evaluates limit d (.block env yes) s₁ o s' →
      Evaluates limit d (.expression env (.cond e yes no)) s o s'
  | condNo {d : Nat} {env : FrameId} {e : Expr ι} {yes no : Block ι} {v : Value ι}
      {o : Outcome ι} {s s₁ s' : State ι} :
      Evaluates limit d (.expression env e) s (.ok v) s₁ → v.Falsy →
      Evaluates limit d (.block env no) s₁ o s' →
      Evaluates limit d (.expression env (.cond e yes (some no))) s o s'
  | condNull {d : Nat} {env : FrameId} {e : Expr ι} {yes : Block ι} {v : Value ι}
      {s s' : State ι} :
      Evaluates limit d (.expression env e) s (.ok v) s' → v.Falsy →
      Evaluates limit d (.expression env (.cond e yes none)) s (.ok .null) s'
  -- a call: callee, then arguments in order, then the application
  | call {d : Nat} {env : FrameId} {f : Expr ι} {es : List (Expr ι)} {v : Value ι}
      {vs : List (Value ι)} {o : Outcome ι} {s s₁ s₂ s' : State ι} :
      Evaluates limit d (.expression env f) s (.ok v) s₁ →
      Evaluates limit d (.expressions env es) s₁ (.ok vs) s₂ →
      Evaluates limit d (.apply v vs) s₂ o s' →
      Evaluates limit d (.expression env (.call f es)) s o s'
  | callCallee {d : Nat} {env : FrameId} {f : Expr ι} {es : List (Expr ι)} {i : Interrupt ι}
      {s s' : State ι} :
      Evaluates limit d (.expression env f) s (.error i) s' →
      Evaluates limit d (.expression env (.call f es)) s (.error i) s'
  | callArguments {d : Nat} {env : FrameId} {f : Expr ι} {es : List (Expr ι)} {v : Value ι}
      {i : Interrupt ι} {s s₁ s' : State ι} :
      Evaluates limit d (.expression env f) s (.ok v) s₁ →
      Evaluates limit d (.expressions env es) s₁ (.error i) s' →
      Evaluates limit d (.expression env (.call f es)) s (.error i) s'
  -- an index: left, then index
  | index {d : Nat} {env : FrameId} {l e : Expr ι} {v w : Value ι}
      {q : Except EvalError (Value ι)} {s s₁ s' : State ι} :
      Evaluates limit d (.expression env l) s (.ok v) s₁ →
      Evaluates limit d (.expression env e) s₁ (.ok w) s' → v.IndexGives w q →
      Evaluates limit d (.expression env (.index l e)) s (q.mapError .error) s'
  | indexLeft {d : Nat} {env : FrameId} {l e : Expr ι} {i : Interrupt ι} {s s' : State ι} :
      Evaluates limit d (.expression env l) s (.error i) s' →
      Evaluates limit d (.expression env (.index l e)) s (.error i) s'
  | indexRight {d : Nat} {env : FrameId} {l e : Expr ι} {v : Value ι} {i : Interrupt ι}
      {s s₁ s' : State ι} :
      Evaluates limit d (.expression env l) s (.ok v) s₁ →
      Evaluates limit d (.expression env e) s₁ (.error i) s' →
      Evaluates limit d (.expression env (.index l e)) s (.error i) s'
  -- statements
  | expr {d : Nat} {env : FrameId} {e : Expr ι} {o : Outcome ι} {s s' : State ι} :
      Evaluates limit d (.expression env e) s o s' →
      Evaluates limit d (.statement env (.expr e)) s o s'
  | ret {d : Nat} {env : FrameId} {e : Expr ι} {v : Value ι} {s s' : State ι} :
      Evaluates limit d (.expression env e) s (.ok v) s' →
      Evaluates limit d (.statement env (.ret e)) s (.error (.returned v)) s'
  | retInterrupt {d : Nat} {env : FrameId} {e : Expr ι} {i : Interrupt ι} {s s' : State ι} :
      Evaluates limit d (.expression env e) s (.error i) s' →
      Evaluates limit d (.statement env (.ret e)) s (.error i) s'
  | bind {d : Nat} {env : FrameId} {x : String} {e : Expr ι} {v : Value ι} {s s' : State ι} :
      Evaluates limit d (.expression env e) s (.ok v) s' →
      Evaluates limit d (.statement env (.bind x e)) s (.ok v) (s'.bind env x v)
  | bindReturned {d : Nat} {env : FrameId} {x : String} {e : Expr ι} {v : Value ι}
      {s s' : State ι} :
      Evaluates limit d (.expression env e) s (.error (.returned v)) s' →
      Evaluates limit d (.statement env (.bind x e)) s (.ok v) (s'.bind env x v)
  | bindError {d : Nat} {env : FrameId} {x : String} {e : Expr ι} {err : EvalError}
      {s s' : State ι} :
      Evaluates limit d (.expression env e) s (.error (.error err)) s' →
      Evaluates limit d (.statement env (.bind x e)) s (.error (.error err)) s'
  -- a block: its last statement decides, an interrupt of an earlier one ends it
  | blockNil {d : Nat} {env : FrameId} {s : State ι} :
      Evaluates limit d (.block env []) s (.ok .null) s
  | blockLast {d : Nat} {env : FrameId} {t : Stmt ι} {o : Outcome ι} {s s' : State ι} :
      Evaluates limit d (.statement env t) s o s' → Evaluates limit d (.block env [t]) s o s'
  | blockNext {d : Nat} {env : FrameId} {t u : Stmt ι} {ts : List (Stmt ι)} {v : Value ι}
      {o : Outcome ι} {s s₁ s' : State ι} :
      Evaluates limit d (.statement env t) s (.ok v) s₁ →
      Evaluates limit d (.block env (u :: ts)) s₁ o s' →
      Evaluates limit d (.block env (t :: u :: ts)) s o s'
  | blockInterrupt {d : Nat} {env : FrameId} {t u : Stmt ι} {ts : List (Stmt ι)} {i : Interrupt ι}
      {s s' : State ι} :
      Evaluates limit d (.statement env t) s (.error i) s' →
      Evaluates limit d (.block env (t :: u :: ts)) s (.error i) s'
  -- a program: the same, but a pending return is its value
  | programNil {d : Nat} {env : FrameId} {s : State ι} :
      Evaluates limit d (.program env []) s (.ok .null) s
  | programLast {d : Nat} {env : FrameId} {t : Stmt ι} {v : Value ι} {s s' : State ι} :
      Evaluates limit d (.statement env t) s (.ok v) s' →
      Evaluates limit d (.program env [t]) s (.ok v) s'
  | programNext {d : Nat} {env : FrameId} {t u : Stmt ι} {ts : List (Stmt ι)} {v : Value ι}
      {o : Outcome ι} {s s₁ s' : State ι} :
      Evaluates limit d (.statement env t) s (.ok v) s₁ →
      Evaluates limit d (.program env (u :: ts)) s₁ o s' →
      Evaluates limit d (.program env (t :: u :: ts)) s o s'
  | programReturned {d : Nat} {env : FrameId} {t : Stmt ι} {ts : List (Stmt ι)} {v : Value ι}
      {s s' : State ι} :
      Evaluates limit d (.statement env t) s (.error (.returned v)) s' →
      Evaluates limit d (.program env (t :: ts)) s (.ok v) s'
  | programError {d : Nat} {env : FrameId} {t : Stmt ι} {ts : List (Stmt ι)} {err : EvalError}
      {s s' : State ι} :
      Evaluates limit d (.statement env t) s (.error (.error err)) s' →
      Evaluates limit d (.program env (t :: ts)) s (.error (.error err)) s'
  -- application
  | applyArity {d : Nat} {f : FnLiteral ι} {env : FrameId} {args : List (Value ι)}
      {s : State ι} :
      f.parameters.length ≠ args.length →
      Evaluates limit d (.apply (.closure f env) args) s
        (.error (.error (.arity f.parameters.length args.length))) s
  | applyTooDeep {d most : Nat} {f : FnLiteral ι} {env : FrameId} {args : List (Value ι)}
      {s : State ι} :
      f.parameters.length = args.length → limit = some most → most ≤ d →
      Evaluates limit d (.apply (.closure f env) args) s (.error (.error (.tooDeep most))) s
  | applyValue {d : Nat} {f : FnLiteral ι} {env : FrameId} {args : List (Value ι)} {v : Value ι}
      {s s' : State ι} :
      f.parameters.length = args.length → Admits limit d →
      Evaluates limit (d + 1) (.block s.store.next f.body) (s.enter f env args) (.ok v) s' →
      Evaluates limit d (.apply (.closure f env) args) s (.ok v) s'
  | applyReturned {d : Nat} {f : FnLiteral ι} {env : FrameId} {args : List (Value ι)}
      {v : Value ι} {s s' : State ι} :
      f.parameters.length = args.length → Admits limit d →
      Evaluates limit (d + 1) (.block s.store.next f.body) (s.enter f env args)
        (.error (.returned v)) s' →
      Evaluates limit d (.apply (.closure f env) args) s (.ok v) s'
  | applyError {d : Nat} {f : FnLiteral ι} {env : FrameId} {args : List (Value ι)}
      {err : EvalError} {s s' : State ι} :
      f.parameters.length = args.length → Admits limit d →
      Evaluates limit (d + 1) (.block s.store.next f.body) (s.enter f env args)
        (.error (.error err)) s' →
      Evaluates limit d (.apply (.closure f env) args) s (.error (.error err)) s'
  | applyBuiltin {d : Nat} {b : Builtin} {args : List (Value ι)} {s : State ι} :
      Evaluates limit d (.apply (.builtin b) args) s ((b.call args s.log).1.mapError .error)
        { s with log := (b.call args s.log).2 }
  | applyOther {d : Nat} {callee : Value ι} {args : List (Value ι)} {s : State ι} :
      callee.type ≠ .function → callee.type ≠ .builtin →
      Evaluates limit d (.apply callee args) s (.error (.error (.notCallable callee.type))) s
  -- expressions in order: all the values, or the first interrupt
  | nil {d : Nat} {env : FrameId} {s : State ι} :
      Evaluates limit d (.expressions env []) s (.ok []) s
  | cons {d : Nat} {env : FrameId} {e : Expr ι} {es : List (Expr ι)} {v : Value ι}
      {vs : List (Value ι)} {s s₁ s' : State ι} :
      Evaluates limit d (.expression env e) s (.ok v) s₁ →
      Evaluates limit d (.expressions env es) s₁ (.ok vs) s' →
      Evaluates limit d (.expressions env (e :: es)) s (.ok (v :: vs)) s'
  | consHead {d : Nat} {env : FrameId} {e : Expr ι} {es : List (Expr ι)} {i : Interrupt ι}
      {s s' : State ι} :
      Evaluates limit d (.expression env e) s (.error i) s' →
      Evaluates limit d (.expressions env (e :: es)) s (.error i) s'
  | consTail {d : Nat} {env : FrameId} {e : Expr ι} {es : List (Expr ι)} {v : Value ι}
      {i : Interrupt ι} {s s₁ s' : State ι} :
      Evaluates limit d (.expression env e) s (.ok v) s₁ →
      Evaluates limit d (.expressions env es) s₁ (.error i) s' →
      Evaluates limit d (.expressions env (e :: es)) s (.error i) s'

end Monkey
