import Monkey.Eval.Congruence

/-!
# Monkey — calls and runs

The body of a function is evaluated with the meaning of calls itself, so that
meaning is a least solution: `Value.applyOn` gives a result where, and as, its
equation gives one after finitely many calls, and is `none` where calls go on
without end. It exists because a tree finishes with whatever calls finish
(`Block.eval_le`). `call_eq` is the equation and `call_induction` says that it
is the least solution: what the equation preserves of the results of calls holds
of every call that finishes.
-/

namespace Monkey

variable {ι : Type}

/-! ## Calls -/

/-- Calls a function, given how a block is executed in a frame: the body is
executed in a new frame inside the captured one, with the parameters bound to
the arguments. The call is in progress until the body has ended, however it
ends. -/
def callClosure (limit : Option Nat) (body : FrameId → Block ι → EvalM ι (Value ι))
    (f : FnLiteral ι) (env : FrameId) (args : List (Value ι)) : EvalM ι (Value ι) := do
  EvalM.enterCall limit
  let frame ← EvalM.enclose env
  EvalM.bindAll frame f.parameters args
  let o ← EvalM.outcome (body frame f.body)
  EvalM.leaveCall
  EvalM.landing o

/-- Calls a value, given how a block is executed in a frame. A function takes as
many arguments as it has parameters; what is neither a function nor a builtin
cannot be called. -/
def callWith (limit : Option Nat) (body : FrameId → Block ι → EvalM ι (Value ι))
    (callee : Value ι) (args : List (Value ι)) : EvalM ι (Value ι) :=
  match callee with
  | .closure f env =>
    if f.parameters.length = args.length then callClosure limit body f env args
    else EvalM.fail (.arity f.parameters.length args.length)
  | .builtin b => EvalM.callBuiltin b args
  | v => EvalM.fail (.notCallable v.type)

section Monotone

variable (limit : Option Nat) {body body' : FrameId → Block ι → EvalM ι (Value ι)}

/-- A call finishes where its body does. -/
theorem callClosure_le (h : ∀ frame b, (body frame b).le (body' frame b)) (f : FnLiteral ι)
    (env : FrameId) (args : List (Value ι)) :
    (callClosure limit body f env args).le (callClosure limit body' f env args) :=
  .bind (.refl _) fun _ => .bind (.refl _) fun frame => .bind (.refl _) fun _ =>
    .bind (.outcome (h frame f.body)) fun _ => .refl _

theorem callWith_le (h : ∀ frame b, (body frame b).le (body' frame b)) (callee : Value ι)
    (args : List (Value ι)) :
    (callWith limit body callee args).le (callWith limit body' callee args) := by
  cases callee with
  | closure f env =>
    simp only [callWith]
    split
    · exact callClosure_le limit h f env args
    · exact .refl _
  | _ => exact .refl _

end Monotone

section Meaning

variable (limit : Option Nat)

/-- Calls a value on a machine, under a limit on the depth of calls. -/
def Value.applyOn (callee : Value ι) (args : List (Value ι)) (m : Machine ι) :
    Option (Outcome ι × Machine ι) :=
  (callWith limit (Block.eval fun v vs => EvalM.ofExec (v |>.applyOn vs)) callee args).exec m
partial_fixpoint monotonicity by
  intro f g h callee args m
  have hfg : ∀ v vs, (EvalM.ofExec (f v vs)).le (EvalM.ofExec (g v vs)) := by
    intro v vs m r hr
    rw [EvalM.exec_ofExec] at hr ⊢
    have h := h v vs m
    rw [hr] at h
    generalize g v vs m = y at h ⊢
    cases h
    rfl
  have hle := callWith_le limit (Block.eval_le hfg) callee args m
  dsimp only
  rcases hx : (callWith limit (Block.eval fun v vs => .ofExec (f v vs)) callee args).exec m
    with _ | r
  · constructor
  · rw [hle r hx]
    constructor

/-- The meaning of calls under a limit on their depth. -/
def call (callee : Value ι) (args : List (Value ι)) : EvalM ι (Value ι) :=
  EvalM.ofExec (callee.applyOn limit args)

/-- The equation of calls: a body is executed with the meaning of calls itself. -/
theorem call_eq (callee : Value ι) (args : List (Value ι)) :
    call limit callee args = callWith limit (Block.eval (call limit)) callee args := by
  refine EvalM.ext fun m => ?_
  rw [call, EvalM.exec_ofExec, Value.applyOn]
  rfl

/-- What the equation preserves of the results of calls holds of every call that
finishes. -/
theorem call_induction
    {P : Value ι → List (Value ι) → Machine ι → Outcome ι × Machine ι → Prop}
    (step : ∀ c : Value ι → List (Value ι) → EvalM ι (Value ι),
      (∀ v vs m r, (c v vs).exec m = some r → P v vs m r) →
      ∀ v vs m r, (callWith limit (Block.eval c) v vs).exec m = some r → P v vs m r)
    (callee : Value ι) (args : List (Value ι)) (m : Machine ι) (r : Outcome ι × Machine ι)
    (h : (call limit callee args).exec m = some r) : P callee args m r :=
  Value.applyOn.partial_correctness limit P (fun c hc => step (fun v vs => .ofExec (c v vs)) hc)
    callee args m r h

end Meaning

/-! ## Runs -/

/-- Evaluates a phrase on a machine under a limit on the depth of calls. -/
def Machine.evaluate (m : Machine ι) (limit : Option Nat) (phrase : Phrase ι) (env : FrameId) :
    Option (Outcome ι × Machine ι) :=
  (phrase.eval (call limit) env).exec m

/-- Runs a program on a machine under a limit on the depth of calls. -/
def Machine.run (m : Machine ι) (limit : Option Nat) (p : Program ι) (env : FrameId) :
    Option (Except EvalError (Value ι) × Machine ι) :=
  (m.evaluate limit (.program p) env).map fun (o, m) => (o.result, m)

/-- A run is the evaluation of the block of its statements, with its result. -/
theorem Machine.run_eq (m : Machine ι) (limit : Option Nat) (p : Program ι) (env : FrameId) :
    m.run limit p env = (m.evaluate limit (.block p.statements) env).map
      fun (o, m) => (o.result, m) := by
  rw [Machine.run, Machine.evaluate, Machine.evaluate, Phrase.eval, Phrase.eval,
    Program.eval_eq_landed, EvalM.exec_landed, Option.map_map]
  refine congrArg (Option.map · _) (funext ?_)
  rintro ⟨(_ | _) | _, _⟩ <;> rfl

/-- Runs a program in a root frame of its own; the printer comes back as the run
leaves it. -/
def Program.run (p : Program ι) (limit : Option Nat) (printer : Printer) :
    Option (Except EvalError (Value ι) × Printer) :=
  ((Machine.fresh printer).run limit p Machine.root).map fun (result, m) => (result, m.printer)

end Monkey
