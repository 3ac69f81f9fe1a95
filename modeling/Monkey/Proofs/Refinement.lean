import Monkey.Eval.Approximation
import Monkey.Proofs.Application
import Monkey.Proofs.OperatorRules

/-!
# Monkey — evaluation and its rules agree

Every evaluation that finishes is derived by the rules, by induction on the tree
and, inside calls, on the calls (`Task.eval_follows`). Whatever the rules
derive is how the evaluation finishes, by induction on the derivation
(`Evaluates.exec`). So the rules derive one result at most, and none where
evaluation does not finish (`evaluate_iff_evaluates`).
-/

namespace Monkey

variable {ι : Type}

/-- The machine in a state, with a number of calls in progress. -/
def State.machine (s : State ι) (depth : Nat) : Machine ι := ⟨s.store, s.log, depth⟩

/-- The state of a machine. -/
def Machine.state (m : Machine ι) : State ι := ⟨m.store, m.printer⟩

/-- Evaluates a task under a limit on the depth of calls. -/
def Task.eval (limit : Option Nat) : {k : Kind} → Task ι k → EvalM ι (k.Answer ι)
  | _, .expression env e => e.eval (call limit) env
  | _, .expressions env es => Expr.evalList (call limit) env es
  | _, .statement env s => s.eval (call limit) env
  | _, .block env b => Block.eval (call limit) env b
  | _, .program env ss => Program.eval (call limit) env ⟨ss⟩
  | _, .apply callee args => call limit callee args

theorem Phrase.eval_task (limit : Option Nat) (env : FrameId) (phrase : Phrase ι) :
    (phrase.task env).eval limit = phrase.eval (call limit) env := by
  cases phrase <;> rfl

/-- Related meanings of calls give related evaluations of tasks. -/
theorem Task.eval_rel {R : ∀ β : Type, EvalM ι β → EvalM ι β → Prop} (limit limit' : Option Nat)
    (hR : ∀ env, EvalM.Compatible env (fun _ => True) R)
    (hcall : ∀ v vs, R _ (call limit v vs) (call limit' v vs)) {k : Kind} (t : Task ι k) :
    R _ (t.eval limit) (t.eval limit') := by
  cases t with
  | expression env e => exact Expr.eval_rel (hR env) hcall e fun _ _ => trivial
  | expressions env es => exact Expr.evalList_rel (hR env) hcall es fun _ _ => trivial
  | statement env s => exact Stmt.eval_rel (hR env) hcall s fun _ _ => trivial
  | block env b => exact Block.eval_rel (hR env) hcall b fun _ _ => trivial
  | program env ss => exact Phrase.eval_rel (hR env) hcall (.program ⟨ss⟩) fun _ _ => trivial
  | apply callee args => exact hcall callee args

/-! ## From evaluation to the rules -/

/-- However the evaluation finishes with `d` calls in progress, it does so along
the relation, and as many calls are in progress then. -/
def EvalM.Follows {β : Type} (d : Nat) (R : State ι → Except (Interrupt ι) β → State ι → Prop)
    (x : EvalM ι β) : Prop :=
  ∀ s r m', x.exec (s.machine d) = some (r, m') → ∃ s', m' = s'.machine d ∧ R s r s'

/-- A sequence whose first part follows a relation goes on from a value, or ends
with the interrupt. -/
theorem EvalM.Follows.bind_cases {β γ : Type} {d : Nat}
    {R : State ι → Except (Interrupt ι) β → State ι → Prop} {x : EvalM ι β} (hx : x.Follows d R)
    {f : β → EvalM ι γ} {s : State ι} {r : Except (Interrupt ι) γ} {m' : Machine ι}
    (h : (x >>= f).exec (s.machine d) = some (r, m')) :
    (∃ b s₁, R s (.ok b) s₁ ∧ (f b).exec (s₁.machine d) = some (r, m')) ∨
      ∃ i s₁, m' = s₁.machine d ∧ r = .error i ∧ R s (.error i) s₁ := by
  rcases exec_bind_eq_some.1 h with ⟨b, m₁, h₁, h₂⟩ | ⟨i, h₁, rfl⟩
  · obtain ⟨s₁, rfl, hR⟩ := hx s _ _ h₁
    exact .inl ⟨b, s₁, hR, h₂⟩
  · obtain ⟨s₁, rfl, hR⟩ := hx s _ _ h₁
    exact .inr ⟨i, s₁, rfl, rfl, hR⟩

/-- An evaluation inside a boundary of a `return` ends as the evaluation does at
the boundary. -/
theorem EvalM.Follows.landed {d : Nat} {R : State ι → Outcome ι → State ι → Prop}
    {x : EvalM ι (Value ι)} (hx : x.Follows d R) :
    x.landed.Follows d fun s o s' => ∃ o₁, R s o₁ s' ∧ o = (Outcome.result o₁).mapError .error := by
  intro s o m' h
  rw [exec_landed, Option.map_eq_some_iff] at h
  obtain ⟨⟨o₁, m₁⟩, h₁, h⟩ := h
  cases h
  obtain ⟨s₁, rfl, hR⟩ := hx s o₁ _ h₁
  exact ⟨s₁, rfl, o₁, hR, rfl⟩

section Follows

variable {limit : Option Nat} {d : Nat} {env : FrameId}
variable {c : Value ι → List (Value ι) → EvalM ι (Value ι)}

theorem EvalM.identifier_follows (x : String) :
    (EvalM.identifier env x : EvalM ι (Value ι)).Follows d
      (Evaluates limit d (.expression env (.ident x))) := by
  intro s o m' h
  rw [EvalM.exec_identifier] at h
  cases hlook : (s.machine d).store.lookup env x with
  | some v =>
    rw [hlook] at h
    cases h
    exact ⟨s, rfl, .bound (Store.sees_iff.2 hlook)⟩
  | none =>
    have hnone : ∀ v, ¬ s.store.Sees x v env := by
      intro v hv
      cases hlook.symm.trans (Store.sees_iff.1 hv)
    rw [hlook] at h
    cases hname : Builtin.ofName? x with
    | some b =>
      rw [hname] at h
      cases h
      obtain rfl := Builtin.ofName?_eq_some_iff.1 hname
      exact ⟨s, rfl, .builtin hnone⟩
    | none =>
      rw [hname] at h
      cases h
      refine ⟨s, rfl, .unbound hnone fun b hb => ?_⟩
      rw [Builtin.ofName?_eq_some_iff.2 hb] at hname
      cases hname

mutual

/-- Where calls follow the rules, expressions do. -/
theorem Expr.eval_follows (hc : ∀ v vs, (c v vs).Follows d (Evaluates limit d (.apply v vs))) :
    ∀ e : Expr ι, (e.eval c env).Follows d (Evaluates limit d (.expression env e))
  | .ident x => EvalM.identifier_follows x
  | .int n => by
    intro s o m' h
    cases h
    exact ⟨s, rfl, .int⟩
  | .str t => by
    intro s o m' h
    cases h
    exact ⟨s, rfl, .str⟩
  | .bool b => by
    intro s o m' h
    cases h
    exact ⟨s, rfl, .bool⟩
  | .fn f => by
    intro s o m' h
    cases h
    exact ⟨s, rfl, .fn⟩
  | .array es => by
    intro s o m' h
    rcases (Expr.evalList_follows hc es).bind_cases h with ⟨vs, s₁, hes, h⟩ | ⟨i, s₁, rfl, rfl, hes⟩
    · cases h
      exact ⟨s₁, rfl, .array hes⟩
    · exact ⟨s₁, rfl, .arrayInterrupt hes⟩
  | .unary op e => by
    intro s o m' h
    rcases (Expr.eval_follows hc e).bind_cases h with ⟨v, s₁, he, h⟩ | ⟨i, s₁, rfl, rfl, he⟩
    · rw [EvalM.exec_ofExcept] at h
      cases h
      exact ⟨s₁, rfl, .unary he (UnaryOp.gives_iff.2 rfl)⟩
    · exact ⟨s₁, rfl, .unaryInterrupt he⟩
  | .binary op l r => by
    intro s o m' h
    rcases (Expr.eval_follows hc l).bind_cases h with ⟨v, s₁, hl, h⟩ | ⟨i, s₁, rfl, rfl, hl⟩
    · rcases (Expr.eval_follows hc r).bind_cases h with ⟨w, s₂, hr, h⟩ | ⟨i, s₂, rfl, rfl, hr⟩
      · rw [EvalM.exec_ofExcept] at h
        cases h
        exact ⟨s₂, rfl, .binary hl hr (BinaryOp.gives_iff.2 rfl)⟩
      · exact ⟨s₂, rfl, .binaryRight hl hr⟩
    · exact ⟨s₁, rfl, .binaryLeft hl⟩
  | .cond e yes none => by
    intro s o m' h
    rcases (Expr.eval_follows hc e).bind_cases h with ⟨v, s₁, he, h⟩ | ⟨i, s₁, rfl, rfl, he⟩
    · split at h
      · rename_i hv
        obtain ⟨s₂, rfl, hyes⟩ := Stmt.evalFrom_follows hc yes s₁ _ _ h
        exact ⟨s₂, rfl, .condYes he ((Value.truthy_iff v).1 hv) hyes⟩
      · rename_i hv
        cases h
        exact ⟨s₁, rfl, .condNull he (Classical.not_not.1 (mt (Value.truthy_iff v).2 hv))⟩
    · exact ⟨s₁, rfl, .condInterrupt he⟩
  | .cond e yes (some no) => by
    intro s o m' h
    rcases (Expr.eval_follows hc e).bind_cases h with ⟨v, s₁, he, h⟩ | ⟨i, s₁, rfl, rfl, he⟩
    · split at h
      · rename_i hv
        obtain ⟨s₂, rfl, hyes⟩ := Stmt.evalFrom_follows hc yes s₁ _ _ h
        exact ⟨s₂, rfl, .condYes he ((Value.truthy_iff v).1 hv) hyes⟩
      · rename_i hv
        obtain ⟨s₂, rfl, hno⟩ := Stmt.evalFrom_follows hc no s₁ _ _ h
        exact ⟨s₂, rfl, .condNo he (Classical.not_not.1 (mt (Value.truthy_iff v).2 hv)) hno⟩
    · exact ⟨s₁, rfl, .condInterrupt he⟩
  | .call f es => by
    intro s o m' h
    rcases (Expr.eval_follows hc f).bind_cases h with ⟨v, s₁, hf, h⟩ | ⟨i, s₁, rfl, rfl, hf⟩
    · rcases (Expr.evalList_follows hc es).bind_cases h with
        ⟨vs, s₂, hes, h⟩ | ⟨i, s₂, rfl, rfl, hes⟩
      · obtain ⟨s₃, rfl, happly⟩ := hc v vs s₂ _ _ h
        exact ⟨s₃, rfl, .call hf hes happly⟩
      · exact ⟨s₂, rfl, .callArguments hf hes⟩
    · exact ⟨s₁, rfl, .callCallee hf⟩
  | .index l e => by
    intro s o m' h
    rcases (Expr.eval_follows hc l).bind_cases h with ⟨v, s₁, hl, h⟩ | ⟨i, s₁, rfl, rfl, hl⟩
    · rcases (Expr.eval_follows hc e).bind_cases h with ⟨w, s₂, he, h⟩ | ⟨i, s₂, rfl, rfl, he⟩
      · rw [EvalM.exec_ofExcept] at h
        cases h
        exact ⟨s₂, rfl, .index hl he (Value.indexGives_iff.2 rfl)⟩
      · exact ⟨s₂, rfl, .indexRight hl he⟩
    · exact ⟨s₁, rfl, .indexLeft hl⟩
termination_by structural e => e

theorem Expr.evalList_follows (hc : ∀ v vs, (c v vs).Follows d (Evaluates limit d (.apply v vs))) :
    ∀ es : List (Expr ι),
      (Expr.evalList c env es).Follows d (Evaluates limit d (.expressions env es))
  | [] => by
    intro s r m' h
    cases h
    exact ⟨s, rfl, .nil⟩
  | e :: es => by
    intro s r m' h
    rcases (Expr.eval_follows hc e).bind_cases h with ⟨v, s₁, he, h⟩ | ⟨i, s₁, rfl, rfl, he⟩
    · rcases (Expr.evalList_follows hc es).bind_cases h with
        ⟨vs, s₂, hes, h⟩ | ⟨i, s₂, rfl, rfl, hes⟩
      · cases h
        exact ⟨s₂, rfl, .cons he hes⟩
      · exact ⟨s₂, rfl, .consTail he hes⟩
    · exact ⟨s₁, rfl, .consHead he⟩
termination_by structural es => es

theorem Stmt.eval_follows (hc : ∀ v vs, (c v vs).Follows d (Evaluates limit d (.apply v vs))) :
    ∀ t : Stmt ι, (t.eval c env).Follows d (Evaluates limit d (.statement env t))
  | .bind x e => by
    intro s o m' h
    rcases (EvalM.Follows.landed (Expr.eval_follows hc e)).bind_cases h with
      ⟨v, s₁, ⟨o₁, he, heq⟩, h⟩ | ⟨i, s₁, rfl, rfl, o₁, he, heq⟩
    · cases h
      rcases o₁ with (err | w) | w
      · cases heq
      · cases heq
        exact ⟨s₁.bind env x v, rfl, .bindReturned he⟩
      · cases heq
        exact ⟨s₁.bind env x v, rfl, .bind he⟩
    · rcases o₁ with (err | w) | w
      · cases heq
        exact ⟨s₁, rfl, .bindError he⟩
      · cases heq
      · cases heq
  | .ret e => by
    intro s o m' h
    rcases (Expr.eval_follows hc e).bind_cases h with ⟨v, s₁, he, h⟩ | ⟨i, s₁, rfl, rfl, he⟩
    · cases h
      exact ⟨s₁, rfl, .ret he⟩
    · exact ⟨s₁, rfl, .retInterrupt he⟩
  | .expr e => by
    intro s o m' h
    obtain ⟨s₁, rfl, he⟩ := Expr.eval_follows hc e s _ _ h
    exact ⟨s₁, rfl, .expr he⟩
termination_by structural t => t

theorem Stmt.evalFrom_follows (hc : ∀ v vs, (c v vs).Follows d (Evaluates limit d (.apply v vs))) :
    ∀ ts : List (Stmt ι),
      (Stmt.evalFrom c env .null ts).Follows d (Evaluates limit d (.block env ts))
  | [] => by
    intro s o m' h
    cases h
    exact ⟨s, rfl, .blockNil⟩
  | [t] => by
    intro s o m' h
    rcases (Stmt.eval_follows hc t).bind_cases h with ⟨v, s₁, ht, h⟩ | ⟨i, s₁, rfl, rfl, ht⟩
    · cases h
      exact ⟨s₁, rfl, .blockLast ht⟩
    · exact ⟨s₁, rfl, .blockLast ht⟩
  | t :: u :: ts => by
    intro s o m' h
    rcases (Stmt.eval_follows hc t).bind_cases h with ⟨v, s₁, ht, h⟩ | ⟨i, s₁, rfl, rfl, ht⟩
    · -- the value so far is forgotten, since another statement follows
      obtain ⟨s₂, rfl, hts⟩ := Stmt.evalFrom_follows hc (u :: ts) s₁ _ _ h
      exact ⟨s₂, rfl, .blockNext ht hts⟩
    · exact ⟨s₁, rfl, .blockInterrupt ht⟩
termination_by structural ts => ts

end

/-- By the rules, a program ends as the block of its statements does at the
boundary of a `return`. -/
theorem Evaluates.program_of_block {ts : List (Stmt ι)} {s s' : State ι} {o : Outcome ι}
    (h : Evaluates limit d (.block env ts) s o s') :
    Evaluates limit d (.program env ts) s (o.result.mapError .error) s' := by
  induction ts generalizing s with
  | nil =>
    cases h with
    | blockNil => exact .programNil
  | cons t ts ih =>
    cases h with
    | blockLast ht =>
      rcases o with (err | v) | v
      · exact .programError ht
      · exact .programReturned ht
      · exact .programLast ht
    | blockNext ht hts => exact .programNext ht (ih hts)
    | @blockInterrupt _ _ _ u ts i _ _ ht =>
      rcases i with err | v
      · exact .programError ht
      · exact .programReturned ht

/-- Where calls follow the rules, programs do. -/
theorem Program.eval_follows (hc : ∀ v vs, (c v vs).Follows d (Evaluates limit d (.apply v vs)))
    (p : Program ι) :
    (p.eval c env).Follows d (Evaluates limit d (.program env p.statements)) := by
  intro s o m' h
  rw [Program.eval_eq_landed] at h
  obtain ⟨s', rfl, o₁, hblock, rfl⟩ := (Stmt.evalFrom_follows hc p.statements).landed s o m' h
  exact ⟨s', rfl, hblock.program_of_block⟩

/-- A call follows the rules of application where the bodies of functions follow
those of blocks, one call deeper. -/
theorem callWith_follows {body : FrameId → Block ι → EvalM ι (Value ι)}
    (hbody : ∀ frame b, (body frame b).Follows (d + 1) (Evaluates limit (d + 1) (.block frame b)))
    (callee : Value ι) (args : List (Value ι)) :
    (callWith limit body callee args).Follows d (Evaluates limit d (.apply callee args)) := by
  intro s o m' h
  cases exec_callWith_iff.1 h with
  | arity hlen => exact ⟨s, rfl, .applyArity hlen⟩
  | tooDeep hlen hlim hle => exact ⟨s, rfl, .applyTooDeep hlen hlim hle⟩
  | builtin => exact ⟨_, rfl, .applyBuiltin⟩
  | notCallable hf hb => exact ⟨s, rfl, .applyOther hf hb⟩
  | @closure f env _ o₁ m₁ hlen had hexec =>
    obtain ⟨s₁, rfl, hblock⟩ := hbody s.store.next f.body (s.enter f env args) o₁ m₁ hexec
    refine ⟨s₁, rfl, ?_⟩
    rcases o₁ with (err | v) | v
    · exact .applyError hlen had hblock
    · exact .applyReturned hlen had hblock
    · exact .applyValue hlen had hblock

end Follows

/-- Calls follow the rules of application. The induction is on the calls that a
finished call went through. -/
theorem call_follows (limit : Option Nat) (d : Nat) (callee : Value ι) (args : List (Value ι)) :
    (call limit callee args).Follows d (Evaluates limit d (.apply callee args)) := by
  suffices h : ∀ m r, (call limit callee args).exec m = some r →
      ∃ s', r.2 = s'.machine m.depth ∧
        Evaluates limit m.depth (.apply callee args) m.state r.1 s' from
    fun s o m' hexec => h (s.machine d) (o, m') hexec
  refine call_induction limit (P := fun callee args m r =>
    ∃ s', r.2 = s'.machine m.depth ∧ Evaluates limit m.depth (.apply callee args) m.state r.1 s')
    (fun c hc => ?_) callee args
  have hfollows : ∀ d v vs, (c v vs).Follows d (Evaluates limit d (.apply v vs)) :=
    fun d v vs s o m' h => hc v vs (s.machine d) (o, m') h
  intro callee args m ⟨o, m'⟩ h
  exact callWith_follows (fun frame b => Stmt.evalFrom_follows (hfollows (m.depth + 1)) b)
    callee args m.state o m' h

theorem Task.eval_follows (limit : Option Nat) (d : Nat) {k : Kind} (t : Task ι k) :
    (t.eval limit).Follows d (Evaluates limit d t) := by
  cases t with
  | expression env e => exact Expr.eval_follows (call_follows limit d) e
  | expressions env es => exact Expr.evalList_follows (call_follows limit d) es
  | statement env s => exact Stmt.eval_follows (call_follows limit d) s
  | block env b => exact Stmt.evalFrom_follows (call_follows limit d) b
  | program env ss => exact Program.eval_follows (call_follows limit d) ⟨ss⟩
  | apply callee args => exact call_follows limit d callee args

/-! ## From the rules to evaluation -/

/-- A call of a function finishes as its body does at the boundary of a
`return`. -/
theorem exec_apply_of_body {limit : Option Nat} {d : Nat} {f : FnLiteral ι} {env : FrameId}
    {args : List (Value ι)} {s s' : State ι} {o : Outcome ι}
    (hlen : f.parameters.length = args.length) (had : Admits limit d)
    (hbody : ((Task.block s.store.next f.body).eval limit).exec
      ((s.enter f env args).machine (d + 1)) = some (o, s'.machine (d + 1))) :
    ((Task.apply (.closure f env) args).eval limit).exec (s.machine d) =
      some (o.result.mapError .error, s'.machine d) := by
  have hends : CallEnds limit (Block.eval (call limit)) (s.machine d) (.closure f env) args
      (o.result.mapError .error) (Machine.leave (s'.machine (d + 1))) := .closure hlen had hbody
  exact exec_call_iff.2 hends

/-- Evaluation finishes as the rules derive. -/
theorem Evaluates.exec {limit : Option Nat} {d : Nat} {k : Kind} {t : Task ι k} {s s' : State ι}
    {r : Except (Interrupt ι) (k.Answer ι)} (h : Evaluates limit d t s r s') :
    (t.eval limit).exec (s.machine d) = some (r, s'.machine d) := by
  induction h with
  | int => rfl
  | str => rfl
  | bool => rfl
  | fn => rfl
  | @bound d env x v s hsees =>
    have hlook : (s.machine d).store.lookup env x = some v := Store.sees_iff.1 hsees
    rw [Task.eval, Expr.eval, EvalM.exec_identifier, hlook]
  | @builtin d env b s hnone =>
    have hlook : (s.machine d).store.lookup env b.name = none :=
      Option.eq_none_iff_forall_ne_some.2 fun v hv => hnone v (Store.sees_iff.2 hv)
    rw [Task.eval, Expr.eval, EvalM.exec_identifier, hlook, Builtin.ofName?_name]
  | @unbound d env x s hnone hname =>
    have hlook : (s.machine d).store.lookup env x = none :=
      Option.eq_none_iff_forall_ne_some.2 fun v hv => hnone v (Store.sees_iff.2 hv)
    have hof : Builtin.ofName? x = none :=
      Option.eq_none_iff_forall_ne_some.2 fun b hb => hname b (Builtin.ofName?_eq_some_iff.1 hb)
    rw [Task.eval, Expr.eval, EvalM.exec_identifier, hlook, hof]
  | array _ ih => exact EvalM.exec_bind_of_ok ih _
  | arrayInterrupt _ ih => exact EvalM.exec_bind_of_error ih _
  | unary _ hop ih =>
    obtain rfl := UnaryOp.gives_iff.1 hop
    exact (EvalM.exec_bind_of_ok ih _).trans (EvalM.exec_ofExcept _ _)
  | unaryInterrupt _ ih => exact EvalM.exec_bind_of_error ih _
  | binary _ _ hop ihl ihr =>
    obtain rfl := BinaryOp.gives_iff.1 hop
    exact (EvalM.exec_bind_of_ok ihl _).trans
      ((EvalM.exec_bind_of_ok ihr _).trans (EvalM.exec_ofExcept _ _))
  | binaryLeft _ ih => exact EvalM.exec_bind_of_error ih _
  | binaryRight _ _ ihl ihr =>
    exact (EvalM.exec_bind_of_ok ihl _).trans (EvalM.exec_bind_of_error ihr _)
  | @condInterrupt d env e yes no i s s' _ ih =>
    cases no with
    | none => exact EvalM.exec_bind_of_error ih _
    | some no => exact EvalM.exec_bind_of_error ih _
  | @condYes d env e yes no v o s s₁ s' _ hv _ ihe ihyes =>
    have htrue : v.truthy = true := (Value.truthy_iff v).2 hv
    cases no with
    | none =>
      refine (EvalM.exec_bind_of_ok ihe _).trans ?_
      rw [if_pos htrue]
      exact ihyes
    | some no =>
      refine (EvalM.exec_bind_of_ok ihe _).trans ?_
      rw [if_pos htrue]
      exact ihyes
  | condNo _ hv _ ihe ihno =>
    refine (EvalM.exec_bind_of_ok ihe _).trans ?_
    rw [if_neg fun htrue => (Value.truthy_iff _).1 htrue hv]
    exact ihno
  | condNull _ hv ih =>
    refine (EvalM.exec_bind_of_ok ih _).trans ?_
    rw [if_neg fun htrue => (Value.truthy_iff _).1 htrue hv]
    rfl
  | call _ _ _ ihf ihes ihapply =>
    exact (EvalM.exec_bind_of_ok ihf _).trans
      ((EvalM.exec_bind_of_ok ihes _).trans ihapply)
  | callCallee _ ih => exact EvalM.exec_bind_of_error ih _
  | callArguments _ _ ihf ihes =>
    exact (EvalM.exec_bind_of_ok ihf _).trans (EvalM.exec_bind_of_error ihes _)
  | index _ _ hop ihl ihe =>
    obtain rfl := Value.indexGives_iff.1 hop
    exact (EvalM.exec_bind_of_ok ihl _).trans
      ((EvalM.exec_bind_of_ok ihe _).trans (EvalM.exec_ofExcept _ _))
  | indexLeft _ ih => exact EvalM.exec_bind_of_error ih _
  | indexRight _ _ ihl ihe =>
    exact (EvalM.exec_bind_of_ok ihl _).trans (EvalM.exec_bind_of_error ihe _)
  | expr _ ih => exact ih
  | ret _ ih => exact EvalM.exec_bind_of_ok ih _
  | retInterrupt _ ih => exact EvalM.exec_bind_of_error ih _
  | bind _ ih => exact EvalM.exec_bind_of_ok (EvalM.exec_landed_of ih) _
  | bindReturned _ ih => exact EvalM.exec_bind_of_ok (EvalM.exec_landed_of ih) _
  | bindError _ ih => exact EvalM.exec_bind_of_error (EvalM.exec_landed_of ih) _
  | blockNil => rfl
  | @blockLast d env t o s s' _ ih =>
    cases o with
    | ok v => exact EvalM.exec_bind_of_ok ih _
    | error i => exact EvalM.exec_bind_of_error ih _
  | blockNext _ _ iht ihts => exact (EvalM.exec_bind_of_ok iht _).trans ihts
  | blockInterrupt _ ih => exact EvalM.exec_bind_of_error ih _
  | programNil => rfl
  | programLast _ ih => exact EvalM.exec_bind_of_ok (EvalM.exec_outcome_of ih) _
  | programNext _ _ iht ihts =>
    exact (EvalM.exec_bind_of_ok (EvalM.exec_outcome_of iht) _).trans ihts
  | programReturned _ ih => exact EvalM.exec_bind_of_ok (EvalM.exec_outcome_of ih) _
  | programError _ ih => exact EvalM.exec_bind_of_ok (EvalM.exec_outcome_of ih) _
  | applyArity hlen => exact exec_call_iff.2 (.arity hlen)
  | applyTooDeep hlen hlim hle => exact exec_call_iff.2 (.tooDeep hlen hlim hle)
  | applyValue hlen had _ ih => exact exec_apply_of_body hlen had ih
  | applyReturned hlen had _ ih => exact exec_apply_of_body hlen had ih
  | applyError hlen had _ ih => exact exec_apply_of_body hlen had ih
  | applyBuiltin => exact exec_call_iff.2 .builtin
  | applyOther hf hb => exact exec_call_iff.2 (.notCallable hf hb)
  | nil => rfl
  | cons _ _ ihe ihes =>
    exact (EvalM.exec_bind_of_ok ihe _).trans (EvalM.exec_bind_of_ok ihes _)
  | consHead _ ih => exact EvalM.exec_bind_of_error ih _
  | consTail _ _ ihe ihes =>
    exact (EvalM.exec_bind_of_ok ihe _).trans (EvalM.exec_bind_of_error ihes _)

/-- The rules derive how a task is evaluated, with as many calls in progress at
its end as at its start. -/
theorem evaluates_iff_exec {limit : Option Nat} {d : Nat} {k : Kind} {t : Task ι k}
    {s s' : State ι} {r : Except (Interrupt ι) (k.Answer ι)} :
    Evaluates limit d t s r s' ↔
      (t.eval limit).exec (s.machine d) = some (r, s'.machine d) := by
  constructor
  · exact Evaluates.exec
  · intro h
    obtain ⟨s₁, heq, hev⟩ := t.eval_follows limit d s r _ h
    obtain rfl : s' = s₁ := congrArg Machine.state heq
    exact hev

/-- The rules derive one result at most. -/
theorem Evaluates.unique {limit : Option Nat} {d : Nat} {k : Kind} {t : Task ι k}
    {s s₁ s₂ : State ι} {r₁ r₂ : Except (Interrupt ι) (k.Answer ι)}
    (h₁ : Evaluates limit d t s r₁ s₁) (h₂ : Evaluates limit d t s r₂ s₂) :
    r₁ = r₂ ∧ s₁ = s₂ := by
  have h := Option.some.inj (h₁.exec.symm.trans h₂.exec)
  exact ⟨congrArg Prod.fst h, congrArg (fun p => p.2.state) h⟩

/-- **Evaluation is what its rules say.** An evaluation finishes with an outcome
and a state exactly when the rules derive that outcome and that state. They
derive one result at most, and none exactly where the evaluation does not
finish. -/
theorem evaluate_iff_evaluates (limit : Option Nat) (m : Machine ι) (env : FrameId)
    (phrase : Phrase ι) :
    (∀ o m', m.evaluate limit phrase env = some (o, m') ↔
      m'.depth = m.depth ∧ Evaluates limit m.depth (phrase.task env) m.state o m'.state) ∧
    (∀ o s o' s', Evaluates limit m.depth (phrase.task env) m.state o s →
      Evaluates limit m.depth (phrase.task env) m.state o' s' → o = o' ∧ s = s') ∧
    (m.evaluate limit phrase env = none ↔
      ∀ o s, ¬ Evaluates limit m.depth (phrase.task env) m.state o s) := by
  have hrun : ∀ o m', m.evaluate limit phrase env = some (o, m') ↔
      m'.depth = m.depth ∧ Evaluates limit m.depth (phrase.task env) m.state o m'.state := by
    intro o m'
    constructor
    · intro h
      rw [Machine.evaluate, ← Phrase.eval_task] at h
      obtain ⟨s, rfl, hev⟩ := (phrase.task env).eval_follows limit m.depth m.state o m' h
      exact ⟨rfl, hev⟩
    · rintro ⟨hd, hev⟩
      have hm' : m'.state.machine m.depth = m' := by rw [← hd]; rfl
      have hexec := hev.exec
      rw [Phrase.eval_task, hm'] at hexec
      exact hexec
  refine ⟨hrun, fun _ _ _ _ => Evaluates.unique, fun h o s hev => ?_, fun h => ?_⟩
  · have hsome := (hrun o (s.machine m.depth)).2 ⟨rfl, hev⟩
    rw [h] at hsome
    cases hsome
  · refine Option.eq_none_iff_forall_ne_some.2 fun x hsome => ?_
    obtain ⟨o, m'⟩ := x
    exact h o m'.state ((hrun o m').1 hsome).2

/-- A function that returns early from a condition, called under a limit of one
call: there is a derivation, and only one result has one. -/
theorem evaluate_iff_evaluates_early_return :
    let f : FnLiteral Unit :=
      ⟨(), [], [.expr (.cond (.bool true) [.ret (.int 1)] none), .expr (.int 0)]⟩
    let p : Program Unit := ⟨[.expr (.call (.fn f) [])]⟩
    let m : Machine Unit := Machine.fresh .silent
    ∃ m', m.evaluate (some 1) (.program p) Machine.root = some (.ok (.int 1), m') ∧
      Evaluates (some 1) 0 (.program Machine.root p.statements) m.state (.ok (.int 1)) m'.state ∧
      ∀ o s, Evaluates (some 1) 0 (.program Machine.root p.statements) m.state o s →
        o = .ok (.int 1) ∧ s = m'.state := by
  intro f p m
  have hrun : (m.evaluate (some 1) (.program p) Machine.root).map (·.1) = some (.ok (.int 1)) :=
    Machine.map_evaluate_of_nested 1 rfl
  obtain ⟨⟨o, m'⟩, h, rfl⟩ := Option.map_eq_some_iff.1 hrun
  obtain ⟨hiff, hunique, -⟩ := evaluate_iff_evaluates (some 1) m Machine.root (.program p)
  have hev := ((hiff _ _).1 h).2
  exact ⟨m', h, hev, fun o s ho => hunique o s _ _ ho hev⟩

end Monkey
