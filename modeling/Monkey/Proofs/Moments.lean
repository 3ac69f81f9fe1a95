import Monkey.Proofs.Refinement

/-!
# Monkey — the moments of an evaluation, and where errors are raised

An evaluation consists of others: `Begins` lists the evaluations that a task
begins itself, each with the state it starts in and the number of calls in
progress there, and `Reaches` those it comes to in any number of such steps. The
body of a function is the one place with one more call in progress.

An error ends everything around it at once. So an evaluation ends with an error
exactly when it comes to a task that raises the error, and it ends in the state
the error was raised in (`evaluates_error_iff`).
-/

namespace Monkey

variable {ι : Type}

/-! ## Moments -/

/-- In the course of a task, begun in a state with a number of calls in progress,
another task is begun. What comes before it in the same node has ended with a
value. -/
inductive Begins (limit : Option Nat) : Nat → {k : Kind} → Task ι k → State ι →
    Nat → {k : Kind} → Task ι k → State ι → Prop
  -- expressions
  | array {d : Nat} {env : FrameId} {es : List (Expr ι)} {s : State ι} :
      Begins limit d (.expression env (.array es)) s d (.expressions env es) s
  | unary {d : Nat} {env : FrameId} {op : UnaryOp} {e : Expr ι} {s : State ι} :
      Begins limit d (.expression env (.unary op e)) s d (.expression env e) s
  | binaryLeft {d : Nat} {env : FrameId} {op : BinaryOp} {l r : Expr ι} {s : State ι} :
      Begins limit d (.expression env (.binary op l r)) s d (.expression env l) s
  | binaryRight {d : Nat} {env : FrameId} {op : BinaryOp} {l r : Expr ι} {v : Value ι}
      {s s₁ : State ι} :
      Evaluates limit d (.expression env l) s (.ok v) s₁ →
      Begins limit d (.expression env (.binary op l r)) s d (.expression env r) s₁
  | condition {d : Nat} {env : FrameId} {e : Expr ι} {yes : Block ι} {no : Option (Block ι)}
      {s : State ι} :
      Begins limit d (.expression env (.cond e yes no)) s d (.expression env e) s
  | condYes {d : Nat} {env : FrameId} {e : Expr ι} {yes : Block ι} {no : Option (Block ι)}
      {v : Value ι} {s s₁ : State ι} :
      Evaluates limit d (.expression env e) s (.ok v) s₁ → ¬ v.Falsy →
      Begins limit d (.expression env (.cond e yes no)) s d (.block env yes) s₁
  | condNo {d : Nat} {env : FrameId} {e : Expr ι} {yes no : Block ι} {v : Value ι}
      {s s₁ : State ι} :
      Evaluates limit d (.expression env e) s (.ok v) s₁ → v.Falsy →
      Begins limit d (.expression env (.cond e yes (some no))) s d (.block env no) s₁
  | callee {d : Nat} {env : FrameId} {f : Expr ι} {es : List (Expr ι)} {s : State ι} :
      Begins limit d (.expression env (.call f es)) s d (.expression env f) s
  | arguments {d : Nat} {env : FrameId} {f : Expr ι} {es : List (Expr ι)} {v : Value ι}
      {s s₁ : State ι} :
      Evaluates limit d (.expression env f) s (.ok v) s₁ →
      Begins limit d (.expression env (.call f es)) s d (.expressions env es) s₁
  | application {d : Nat} {env : FrameId} {f : Expr ι} {es : List (Expr ι)} {v : Value ι}
      {vs : List (Value ι)} {s s₁ s₂ : State ι} :
      Evaluates limit d (.expression env f) s (.ok v) s₁ →
      Evaluates limit d (.expressions env es) s₁ (.ok vs) s₂ →
      Begins limit d (.expression env (.call f es)) s d (.apply v vs) s₂
  | indexLeft {d : Nat} {env : FrameId} {l e : Expr ι} {s : State ι} :
      Begins limit d (.expression env (.index l e)) s d (.expression env l) s
  | indexRight {d : Nat} {env : FrameId} {l e : Expr ι} {v : Value ι} {s s₁ : State ι} :
      Evaluates limit d (.expression env l) s (.ok v) s₁ →
      Begins limit d (.expression env (.index l e)) s d (.expression env e) s₁
  -- expressions in order
  | head {d : Nat} {env : FrameId} {e : Expr ι} {es : List (Expr ι)} {s : State ι} :
      Begins limit d (.expressions env (e :: es)) s d (.expression env e) s
  | tail {d : Nat} {env : FrameId} {e : Expr ι} {es : List (Expr ι)} {v : Value ι}
      {s s₁ : State ι} :
      Evaluates limit d (.expression env e) s (.ok v) s₁ →
      Begins limit d (.expressions env (e :: es)) s d (.expressions env es) s₁
  -- statements, blocks and programs
  | expr {d : Nat} {env : FrameId} {e : Expr ι} {s : State ι} :
      Begins limit d (.statement env (.expr e)) s d (.expression env e) s
  | ret {d : Nat} {env : FrameId} {e : Expr ι} {s : State ι} :
      Begins limit d (.statement env (.ret e)) s d (.expression env e) s
  | bind {d : Nat} {env : FrameId} {x : String} {e : Expr ι} {s : State ι} :
      Begins limit d (.statement env (.bind x e)) s d (.expression env e) s
  | blockFirst {d : Nat} {env : FrameId} {t : Stmt ι} {ts : List (Stmt ι)} {s : State ι} :
      Begins limit d (.block env (t :: ts)) s d (.statement env t) s
  | blockNext {d : Nat} {env : FrameId} {t u : Stmt ι} {ts : List (Stmt ι)} {v : Value ι}
      {s s₁ : State ι} :
      Evaluates limit d (.statement env t) s (.ok v) s₁ →
      Begins limit d (.block env (t :: u :: ts)) s d (.block env (u :: ts)) s₁
  | programFirst {d : Nat} {env : FrameId} {t : Stmt ι} {ts : List (Stmt ι)} {s : State ι} :
      Begins limit d (.program env (t :: ts)) s d (.statement env t) s
  | programNext {d : Nat} {env : FrameId} {t u : Stmt ι} {ts : List (Stmt ι)} {v : Value ι}
      {s s₁ : State ι} :
      Evaluates limit d (.statement env t) s (.ok v) s₁ →
      Begins limit d (.program env (t :: u :: ts)) s d (.program env (u :: ts)) s₁
  -- the body of a function, one call deeper
  | body {d : Nat} {f : FnLiteral ι} {env : FrameId} {args : List (Value ι)} {s : State ι} :
      f.parameters.length = args.length → Admits limit d →
      Begins limit d (.apply (.closure f env) args) s (d + 1) (.block s.store.next f.body)
        (s.enter f env args)

/-- A task comes to another one, or to itself, by beginning tasks. -/
inductive Reaches (limit : Option Nat) : Nat → {k : Kind} → Task ι k → State ι →
    Nat → {k : Kind} → Task ι k → State ι → Prop
  | refl {d : Nat} {k : Kind} {t : Task ι k} {s : State ι} : Reaches limit d t s d t s
  | step {d d₁ d₂ : Nat} {k k₁ k₂ : Kind} {t : Task ι k} {t₁ : Task ι k₁} {t₂ : Task ι k₂}
      {s s₁ s₂ : State ι} :
      Begins limit d t s d₁ t₁ s₁ → Reaches limit d₁ t₁ s₁ d₂ t₂ s₂ → Reaches limit d t s d₂ t₂ s₂

/-- A task raises an error itself: a lookup, an operator, a builtin or one of the
checks of an application fails. -/
inductive Raises (limit : Option Nat) : Nat → {k : Kind} → Task ι k → State ι →
    EvalError → State ι → Prop
  | unbound {d : Nat} {env : FrameId} {x : String} {s : State ι} :
      (∀ v, ¬ s.store.Sees x v env) → (∀ b : Builtin, b.name ≠ x) →
      Raises limit d (.expression env (.ident x)) s (.unbound x) s
  | unary {d : Nat} {env : FrameId} {op : UnaryOp} {e : Expr ι} {v : Value ι} {err : EvalError}
      {s s' : State ι} :
      Evaluates limit d (.expression env e) s (.ok v) s' → op.Gives v (.error err) →
      Raises limit d (.expression env (.unary op e)) s err s'
  | binary {d : Nat} {env : FrameId} {op : BinaryOp} {l r : Expr ι} {v w : Value ι}
      {err : EvalError} {s s₁ s' : State ι} :
      Evaluates limit d (.expression env l) s (.ok v) s₁ →
      Evaluates limit d (.expression env r) s₁ (.ok w) s' → op.Gives v w (.error err) →
      Raises limit d (.expression env (.binary op l r)) s err s'
  | index {d : Nat} {env : FrameId} {l e : Expr ι} {v w : Value ι} {err : EvalError}
      {s s₁ s' : State ι} :
      Evaluates limit d (.expression env l) s (.ok v) s₁ →
      Evaluates limit d (.expression env e) s₁ (.ok w) s' → v.IndexGives w (.error err) →
      Raises limit d (.expression env (.index l e)) s err s'
  | arity {d : Nat} {f : FnLiteral ι} {env : FrameId} {args : List (Value ι)} {s : State ι} :
      f.parameters.length ≠ args.length →
      Raises limit d (.apply (.closure f env) args) s (.arity f.parameters.length args.length) s
  | tooDeep {d most : Nat} {f : FnLiteral ι} {env : FrameId} {args : List (Value ι)}
      {s : State ι} :
      f.parameters.length = args.length → limit = some most → most ≤ d →
      Raises limit d (.apply (.closure f env) args) s (.tooDeep most) s
  | builtin {d : Nat} {b : Builtin} {args : List (Value ι)} {err : EvalError} {s : State ι} :
      (b.call args s.log).1 = .error err →
      Raises limit d (.apply (.builtin b) args) s err { s with log := (b.call args s.log).2 }
  | notCallable {d : Nat} {callee : Value ι} {args : List (Value ι)} {s : State ι} :
      callee.type ≠ .function → callee.type ≠ .builtin →
      Raises limit d (.apply callee args) s (.notCallable callee.type) s

/-! ## An error ends everything around it -/

/-- What begins a task that ends with an error ends with that error, and at
once. -/
theorem Begins.error {limit : Option Nat} {d d₁ : Nat} {k k₁ : Kind} {t : Task ι k}
    {t₁ : Task ι k₁} {s s₁ s' : State ι} {err : EvalError} (hbegins : Begins limit d t s d₁ t₁ s₁)
    (h : Evaluates limit d₁ t₁ s₁ (.error (.error err)) s') :
    Evaluates limit d t s (.error (.error err)) s' := by
  cases hbegins with
  | array => exact .arrayInterrupt h
  | unary => exact .unaryInterrupt h
  | binaryLeft => exact .binaryLeft h
  | binaryRight hl => exact .binaryRight hl h
  | condition => exact .condInterrupt h
  | condYes he hv => exact .condYes he hv h
  | condNo he hv => exact .condNo he hv h
  | callee => exact .callCallee h
  | arguments hf => exact .callArguments hf h
  | application hf hes => exact .call hf hes h
  | indexLeft => exact .indexLeft h
  | indexRight hl => exact .indexRight hl h
  | head => exact .consHead h
  | tail he => exact .consTail he h
  | expr => exact .expr h
  | ret => exact .retInterrupt h
  | bind => exact .bindError h
  | @blockFirst env t ts =>
    cases ts with
    | nil => exact .blockLast h
    | cons u ts => exact .blockInterrupt h
  | blockNext ht => exact .blockNext ht h
  | programFirst => exact .programError h
  | programNext ht => exact .programNext ht h
  | body hlen had => exact .applyError hlen had h

/-- A task that raises an error ends with it, in the state in which it raises
it. -/
theorem Raises.evaluates {limit : Option Nat} {d : Nat} {k : Kind} {t : Task ι k}
    {s s' : State ι} {err : EvalError} (h : Raises limit d t s err s') :
    Evaluates limit d t s (.error (.error err)) s' := by
  cases h with
  | unbound hnone hname => exact .unbound hnone hname
  | unary he hop => exact .unary (r := .error err) he hop
  | binary hl hr hop => exact .binary (q := .error err) hl hr hop
  | index hl he hop => exact .index (q := .error err) hl he hop
  | arity hlen => exact .applyArity hlen
  | tooDeep hlen hlim hle => exact .applyTooDeep hlen hlim hle
  | @builtin b args _ _ hcall =>
    have hends : Evaluates limit d (.apply (.builtin b) args) s _ _ := .applyBuiltin
    rw [hcall] at hends
    exact hends
  | notCallable hf hb => exact .applyOther hf hb

/-- In the course of a task an error is raised, in a state. -/
def Fails (limit : Option Nat) (d : Nat) {k : Kind} (t : Task ι k) (s : State ι)
    (err : EvalError) (s' : State ι) : Prop :=
  ∃ d₁, ∃ k₁ : Kind, ∃ t₁ : Task ι k₁, ∃ s₁,
    Reaches limit d t s d₁ t₁ s₁ ∧ Raises limit d₁ t₁ s₁ err s'

theorem Raises.fails {limit : Option Nat} {d : Nat} {k : Kind} {t : Task ι k} {s s' : State ι}
    {err : EvalError} (h : Raises limit d t s err s') : Fails limit d t s err s' :=
  ⟨d, k, t, s, .refl, h⟩

theorem Begins.fails {limit : Option Nat} {d d₁ : Nat} {k k₁ : Kind} {t : Task ι k}
    {t₁ : Task ι k₁} {s s₁ s' : State ι} {err : EvalError} (hbegins : Begins limit d t s d₁ t₁ s₁)
    (h : Fails limit d₁ t₁ s₁ err s') : Fails limit d t s err s' := by
  obtain ⟨d₂, k₂, t₂, s₂, hreaches, hraises⟩ := h
  exact ⟨d₂, k₂, t₂, s₂, .step hbegins hreaches, hraises⟩

/-- What holds of the interrupts that tasks cause themselves, by raising an error or as
`return` statements, and passes from what a task begins to the task, holds of every
interrupt that a task ends with. The induction is on the derivation: an interrupt is the
task's own, or that of a task it begins. -/
theorem Evaluates.interrupt_induction {limit : Option Nat}
    {P : Nat → {k : Kind} → Task ι k → State ι → Interrupt ι → State ι → Prop}
    (raised : ∀ {d : Nat} {k : Kind} {t : Task ι k} {s s' : State ι} {err : EvalError},
      Raises limit d t s err s' → P d t s (.error err) s')
    (returned : ∀ {d : Nat} {env : FrameId} {e : Expr ι} {v : Value ι} {s s' : State ι},
      Evaluates limit d (.expression env e) s (.ok v) s' →
      P d (.statement env (.ret e)) s (.returned v) s')
    (passed : ∀ {d d₁ : Nat} {k k₁ : Kind} {t : Task ι k} {t₁ : Task ι k₁} {s s₁ s' : State ι}
      {i : Interrupt ι}, Begins limit d t s d₁ t₁ s₁ → Evaluates limit d t s (.error i) s' →
      P d₁ t₁ s₁ i s' → P d t s i s')
    {d : Nat} {k : Kind} {t : Task ι k} {s s' : State ι} {i : Interrupt ι}
    (h : Evaluates limit d t s (.error i) s') : P d t s i s' := by
  generalize hr : Except.error i = r at h
  induction h with
  | int | str | bool | fn | bound | builtin | array | condNull | bind | bindReturned | blockNil
  | programNil | programLast | programReturned | applyValue | applyReturned | nil | cons =>
    cases hr
  | unbound hnone hname =>
    cases hr
    exact raised (.unbound hnone hname)
  | @unary _ _ _ _ _ r _ _ he hop _ =>
    cases r <;> cases hr
    exact raised (.unary he hop)
  | @binary _ _ _ _ _ _ _ q _ _ _ hl hr' hop _ _ =>
    cases q <;> cases hr
    exact raised (.binary hl hr' hop)
  | @index _ _ _ _ _ _ q _ _ _ hl he hop _ _ =>
    cases q <;> cases hr
    exact raised (.index hl he hop)
  | applyArity hlen =>
    cases hr
    exact raised (.arity hlen)
  | applyTooDeep hlen hlim hle =>
    cases hr
    exact raised (.tooDeep hlen hlim hle)
  | @applyBuiltin _ b args s =>
    generalize hcall : (b.call args s.log).1 = r at hr
    cases r <;> cases hr
    exact raised (.builtin hcall)
  | applyOther hf hb =>
    cases hr
    exact raised (.notCallable hf hb)
  | ret he _ =>
    cases hr
    exact returned he
  | arrayInterrupt h ih =>
    cases hr
    exact passed .array (.arrayInterrupt h) (ih rfl)
  | unaryInterrupt h ih =>
    cases hr
    exact passed .unary (.unaryInterrupt h) (ih rfl)
  | binaryLeft h ih =>
    cases hr
    exact passed .binaryLeft (.binaryLeft h) (ih rfl)
  | binaryRight hl h _ ih =>
    cases hr
    exact passed (.binaryRight hl) (.binaryRight hl h) (ih rfl)
  | condInterrupt h ih =>
    cases hr
    exact passed .condition (.condInterrupt h) (ih rfl)
  | condYes he hv h _ ih =>
    cases hr
    exact passed (.condYes he hv) (.condYes he hv h) (ih rfl)
  | condNo he hv h _ ih =>
    cases hr
    exact passed (.condNo he hv) (.condNo he hv h) (ih rfl)
  | call hf hes h _ _ ih =>
    cases hr
    exact passed (.application hf hes) (.call hf hes h) (ih rfl)
  | callCallee h ih =>
    cases hr
    exact passed .callee (.callCallee h) (ih rfl)
  | callArguments hf h _ ih =>
    cases hr
    exact passed (.arguments hf) (.callArguments hf h) (ih rfl)
  | indexLeft h ih =>
    cases hr
    exact passed .indexLeft (.indexLeft h) (ih rfl)
  | indexRight hl h _ ih =>
    cases hr
    exact passed (.indexRight hl) (.indexRight hl h) (ih rfl)
  | expr h ih =>
    cases hr
    exact passed .expr (.expr h) (ih rfl)
  | retInterrupt h ih =>
    cases hr
    exact passed .ret (.retInterrupt h) (ih rfl)
  | bindError h ih =>
    cases hr
    exact passed .bind (.bindError h) (ih rfl)
  | blockLast h ih =>
    cases hr
    exact passed .blockFirst (.blockLast h) (ih rfl)
  | blockNext ht h _ ih =>
    cases hr
    exact passed (.blockNext ht) (.blockNext ht h) (ih rfl)
  | blockInterrupt h ih =>
    cases hr
    exact passed .blockFirst (.blockInterrupt h) (ih rfl)
  | programNext ht h _ ih =>
    cases hr
    exact passed (.programNext ht) (.programNext ht h) (ih rfl)
  | programError h ih =>
    cases hr
    exact passed .programFirst (.programError h) (ih rfl)
  | applyError hlen had h ih =>
    cases hr
    exact passed (.body hlen had) (.applyError hlen had h) (ih rfl)
  | consHead h ih =>
    cases hr
    exact passed .head (.consHead h) (ih rfl)
  | consTail he h _ ih =>
    cases hr
    exact passed (.tail he) (.consTail he h) (ih rfl)

/-- An evaluation that ends with an error comes to where the error is raised. -/
theorem Evaluates.fails {limit : Option Nat} {d : Nat} {k : Kind} {t : Task ι k} {s s' : State ι}
    {err : EvalError} (h : Evaluates limit d t s (.error (.error err)) s') :
    Fails limit d t s err s' := by
  refine h.interrupt_induction
    (P := fun d _ t s i s' => ∀ err, i = .error err → Fails limit d t s err s') ?_ ?_ ?_ err rfl
  · rintro d k t s s' _ hraises err ⟨⟩
    exact hraises.fails
  · exact fun _ _ => nofun
  · exact fun hbegins _ ih err heq => hbegins.fails (ih err heq)

/-- A task ends with an error exactly when the error is raised in its course, and
in the state in which it is raised. -/
theorem evaluates_error_iff {limit : Option Nat} {d : Nat} {k : Kind} {t : Task ι k}
    {s s' : State ι} {err : EvalError} :
    Evaluates limit d t s (.error (.error err)) s' ↔ Fails limit d t s err s' := by
  constructor
  · exact Evaluates.fails
  · rintro ⟨d₁, k₁, t₁, s₁, hreaches, hraises⟩
    induction hreaches with
    | refl => exact hraises.evaluates
    | step hbegins _ ih => exact hbegins.error (ih hraises)

end Monkey
