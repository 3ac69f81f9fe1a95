import Monkey.Eval.Tree
import Monkey.Syntax.Names

/-!
# Monkey — what evaluation of a tree preserves

Evaluation of a tree is built from a few operations and from the meaning of
calls. A relation between evaluations that holds of the operations and passes
through sequencing therefore passes from the meanings of calls to the
evaluations of every tree (`Expr.eval_rel` and its companions). A relation that
looks at one side alone is a property, and says what evaluation preserves.

The first use is the order of definedness: the more calls finish, the more
evaluations finish, and in the same way.
-/

namespace Monkey

variable {ι : Type}

/-- Evaluations that run alike are the same. -/
theorem EvalM.ext {β : Type} {x y : EvalM ι β} (h : ∀ m, x.exec m = y.exec m) : x = y := funext h

/-! ## Relations that pass through evaluation -/

/-- A relation between evaluations that holds of the operations which evaluate a
tree in the frame `env`, where a `let` binds only the given names, and that
passes through sequencing and through the boundary of a `return`. -/
structure EvalM.Compatible (env : FrameId) (Bound : String → Prop)
    (R : ∀ β : Type, EvalM ι β → EvalM ι β → Prop) : Prop where
  pure {β : Type} (b : β) : R β (pure b) (pure b)
  bind {β γ : Type} {x y : EvalM ι β} {f g : β → EvalM ι γ} :
    R β x y → (∀ b, R γ (f b) (g b)) → R γ (x >>= f) (y >>= g)
  landed {x y : EvalM ι (Value ι)} : R _ x y → R _ x.landed y.landed
  returned (v : Value ι) : R (Value ι) (throw (.returned v)) (throw (.returned v))
  identifier (x : String) : R _ (EvalM.identifier env x) (EvalM.identifier env x)
  bindName (x : String) (v : Value ι) :
    Bound x → R _ (EvalM.bindName env x v) (EvalM.bindName env x v)
  unary (op : UnaryOp) (v : Value ι) :
    R (Value ι) (EvalM.ofExcept (op.apply v)) (EvalM.ofExcept (op.apply v))
  binary (op : BinaryOp) (v w : Value ι) :
    R (Value ι) (EvalM.ofExcept (op.apply v w)) (EvalM.ofExcept (op.apply v w))
  index (v w : Value ι) : R (Value ι) (EvalM.ofExcept (v.index w)) (EvalM.ofExcept (v.index w))

section Trees

variable {env : FrameId} {Bound : String → Prop} {R : ∀ β : Type, EvalM ι β → EvalM ι β → Prop}
variable {c d : Value ι → List (Value ι) → EvalM ι (Value ι)}

mutual

/-- Related meanings of calls give related evaluations of an expression. -/
theorem Expr.eval_rel (hR : EvalM.Compatible env Bound R) (hc : ∀ v vs, R _ (c v vs) (d v vs)) :
    ∀ e : Expr ι, (∀ x ∈ e.lets, Bound x) → R _ (e.eval c env) (e.eval d env)
  | .ident x, _ => hR.identifier x
  | .int n, _ => hR.pure (Value.int n)
  | .str s, _ => hR.pure (Value.str s)
  | .bool b, _ => hR.pure (Value.bool b)
  | .fn f, _ => hR.pure (Value.closure f env)
  | .array es, h => hR.bind (Expr.evalList_rel hR hc es h) fun _ => hR.pure _
  | .unary op e, h => hR.bind (Expr.eval_rel hR hc e h) fun v => hR.unary op v
  | .binary op l r, h => by
    obtain ⟨hl, hr⟩ := List.forall_mem_append.1 h
    exact hR.bind (Expr.eval_rel hR hc l hl) fun v =>
      hR.bind (Expr.eval_rel hR hc r hr) fun w => hR.binary op v w
  | .cond e yes none, h => by
    obtain ⟨he, hyes⟩ := List.forall_mem_append.1 h
    refine hR.bind (Expr.eval_rel hR hc e he) fun v => ?_
    split
    · exact Stmt.evalFrom_rel hR hc .null yes hyes
    · exact hR.pure _
  | .cond e yes (some no), h => by
    obtain ⟨he, h⟩ := List.forall_mem_append.1 h
    obtain ⟨hyes, hno⟩ := List.forall_mem_append.1 h
    refine hR.bind (Expr.eval_rel hR hc e he) fun v => ?_
    split
    · exact Stmt.evalFrom_rel hR hc .null yes hyes
    · exact Stmt.evalFrom_rel hR hc .null no hno
  | .call f es, h => by
    obtain ⟨hf, hes⟩ := List.forall_mem_append.1 h
    exact hR.bind (Expr.eval_rel hR hc f hf) fun v =>
      hR.bind (Expr.evalList_rel hR hc es hes) fun vs => hc v vs
  | .index l i, h => by
    obtain ⟨hl, hi⟩ := List.forall_mem_append.1 h
    exact hR.bind (Expr.eval_rel hR hc l hl) fun v =>
      hR.bind (Expr.eval_rel hR hc i hi) fun w => hR.index v w
termination_by structural e => e

/-- And of a list of expressions. -/
theorem Expr.evalList_rel (hR : EvalM.Compatible env Bound R)
    (hc : ∀ v vs, R _ (c v vs) (d v vs)) : ∀ es : List (Expr ι), (∀ x ∈ Expr.letsList es, Bound x) →
      R _ (Expr.evalList c env es) (Expr.evalList d env es)
  | [], _ => hR.pure _
  | e :: es, h => by
    obtain ⟨he, hes⟩ := List.forall_mem_append.1 h
    exact hR.bind (Expr.eval_rel hR hc e he) fun v =>
      hR.bind (Expr.evalList_rel hR hc es hes) fun vs => hR.pure _
termination_by structural es => es

/-- And of a statement. -/
theorem Stmt.eval_rel (hR : EvalM.Compatible env Bound R) (hc : ∀ v vs, R _ (c v vs) (d v vs)) :
    ∀ s : Stmt ι, (∀ x ∈ s.lets, Bound x) → R _ (s.eval c env) (s.eval d env)
  | .bind x e, h => by
    obtain ⟨hx, he⟩ := List.forall_mem_cons.1 h
    exact hR.bind (hR.landed (Expr.eval_rel hR hc e he)) fun v =>
      hR.bind (hR.bindName x v hx) fun _ => hR.pure v
  | .ret e, h => hR.bind (Expr.eval_rel hR hc e h) fun v => hR.returned v
  | .expr e, h => Expr.eval_rel hR hc e h
termination_by structural s => s

/-- And of statements in order. -/
theorem Stmt.evalFrom_rel (hR : EvalM.Compatible env Bound R)
    (hc : ∀ v vs, R _ (c v vs) (d v vs)) (last : Value ι) :
    ∀ ss : List (Stmt ι), (∀ x ∈ Stmt.letsList ss, Bound x) →
      R _ (Stmt.evalFrom c env last ss) (Stmt.evalFrom d env last ss)
  | [], _ => hR.pure last
  | s :: ss, h => by
    obtain ⟨hs, hss⟩ := List.forall_mem_append.1 h
    exact hR.bind (Stmt.eval_rel hR hc s hs) fun v => Stmt.evalFrom_rel hR hc v ss hss
termination_by structural ss => ss

end

/-- A program is executed as its statements are, inside a boundary of a
`return`. -/
theorem Program.evalFrom_eq_landed (last : Value ι) (ss : List (Stmt ι)) :
    Program.evalFrom c env last ss = (Stmt.evalFrom c env last ss).landed := by
  induction ss generalizing last with
  | nil => exact EvalM.ext fun m => rfl
  | cons s ss ih =>
    refine EvalM.ext fun m => ?_
    rw [Program.evalFrom, Stmt.evalFrom, EvalM.exec_bind, EvalM.exec_outcome, EvalM.exec_landed,
      EvalM.exec_bind]
    rcases (s.eval c env).exec m with _ | ⟨i | v, m'⟩
    · rfl
    · rcases i with err | w <;> rfl
    · exact (congrArg (·.exec m') (ih v)).trans (EvalM.exec_landed m' _)

theorem Program.eval_eq_landed (p : Program ι) :
    p.eval c env = (Block.eval c env p.statements).landed :=
  Program.evalFrom_eq_landed .null p.statements

/-- The names a phrase binds in the frame it is evaluated in. -/
def Phrase.lets : Phrase ι → List String
  | .program p => Stmt.letsList p.statements
  | .block b => Stmt.letsList b
  | .statement s => s.lets
  | .expression e => e.lets

/-- Related meanings of calls give related evaluations of a phrase. -/
theorem Phrase.eval_rel (hR : EvalM.Compatible env Bound R) (hc : ∀ v vs, R _ (c v vs) (d v vs))
    (phrase : Phrase ι) (h : ∀ x ∈ phrase.lets, Bound x) :
    R _ (phrase.eval c env) (phrase.eval d env) := by
  cases phrase with
  | program p =>
    rw [Phrase.eval, Phrase.eval, Program.eval_eq_landed, Program.eval_eq_landed]
    exact hR.landed (Stmt.evalFrom_rel hR hc .null p.statements h)
  | block b => exact Stmt.evalFrom_rel hR hc .null b h
  | statement s => exact Stmt.eval_rel hR hc s h
  | expression e => exact Expr.eval_rel hR hc e h

/-- The same for a block, as the body of a function is executed. -/
theorem Block.eval_rel (hR : EvalM.Compatible env Bound R) (hc : ∀ v vs, R _ (c v vs) (d v vs))
    (b : Block ι) (h : ∀ x ∈ Stmt.letsList b, Bound x) :
    R _ (Block.eval c env b) (Block.eval d env b) :=
  Stmt.evalFrom_rel hR hc .null b h

end Trees

/-! ## The order of definedness -/

/-- The second evaluation finishes wherever the first one does, in the same way. -/
def EvalM.le {β : Type} (x y : EvalM ι β) : Prop := ∀ m r, x.exec m = some r → y.exec m = some r

namespace EvalM.le

variable {β γ : Type}

theorem refl (x : EvalM ι β) : x.le x := fun _ _ h => h

theorem bind {x y : EvalM ι β} {f g : β → EvalM ι γ} (hx : x.le y) (hf : ∀ b, (f b).le (g b)) :
    (x >>= f).le (y >>= g) := by
  rintro m ⟨r, m'⟩ h
  rcases exec_bind_eq_some.1 h with ⟨b, m₁, h₁, h₂⟩ | ⟨i, h₁, rfl⟩
  · exact exec_bind_eq_some.2 (.inl ⟨b, m₁, hx m _ h₁, hf b m₁ _ h₂⟩)
  · exact exec_bind_eq_some.2 (.inr ⟨i, hx m _ h₁, rfl⟩)

theorem outcome {x y : EvalM ι (Value ι)} (h : x.le y) : x.outcome.le y.outcome := by
  intro m r hr
  rw [exec_outcome, Option.map_eq_some_iff] at hr ⊢
  obtain ⟨o, ho, rfl⟩ := hr
  exact ⟨o, h m o ho, rfl⟩

theorem compatible (env : FrameId) :
    Compatible env (fun _ => True) fun β (x y : EvalM ι β) => x.le y where
  pure _ := refl _
  bind := bind
  landed h := bind (outcome h) fun _ => refl _
  returned _ := refl _
  identifier _ := refl _
  bindName _ _ _ := refl _
  unary _ _ := refl _
  binary _ _ _ := refl _
  index _ _ := refl _

end EvalM.le

/-- A block finishes with whatever calls finish. -/
theorem Block.eval_le {c d : Value ι → List (Value ι) → EvalM ι (Value ι)}
    (h : ∀ v vs, (c v vs).le (d v vs)) (env : FrameId) (b : Block ι) :
    (Block.eval c env b).le (Block.eval d env b) :=
  Block.eval_rel (EvalM.le.compatible env) h b fun _ _ => trivial

end Monkey
