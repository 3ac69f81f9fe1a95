import Monkey.Eval.Evaluator
import Monkey.Proofs.Entry

/-!
# Monkey — what a call does

`CallEnds` lists the ways a call can end, one constructor for each, with the
run of the body as the only part left open. It is the one place where the steps
of a call are taken apart (`exec_callWith_iff`); whatever is said of calls is
read off its constructors.
-/

namespace Monkey

variable {ι : Type}

/-! ## Entering and leaving -/

/-- The machine on which the body of a function starts. -/
def Machine.enter (m : Machine ι) (f : FnLiteral ι) (env : FrameId) (args : List (Value ι)) :
    Machine ι :=
  ⟨m.store.enter f env args, m.printer, m.depth + 1⟩

/-- The machine after the body of a function has ended. -/
def Machine.leave (m : Machine ι) : Machine ι := { m with depth := m.depth - 1 }

/-- Parameters are bound in the store and nowhere else. -/
theorem exec_bindAll (env : FrameId) (xs : List String) (vs : List (Value ι)) (m : Machine ι) :
    (EvalM.bindAll env xs vs).exec m =
      some (.ok (), { m with store := m.store.bindAll env xs vs }) := by
  induction xs generalizing vs m with
  | nil => rfl
  | cons x xs ih =>
    cases vs with
    | nil => rfl
    | cons v vs =>
      rw [EvalM.bindAll, EvalM.exec_bind, EvalM.exec_bindName]
      exact ih vs _

/-- A call that the limit admits is counted. -/
theorem exec_enterCall_of_admits {limit : Option Nat} {m : Machine ι} (h : Admits limit m.depth) :
    (EvalM.enterCall limit).exec m = some (.ok (), { m with depth := m.depth + 1 }) := by
  cases limit with
  | none => rfl
  | some most =>
    have hlt : ¬ most ≤ m.depth := Nat.not_le.2 (h most rfl)
    change (if most ≤ m.depth then EvalM.fail _ else _ : EvalM ι Unit).exec m = _
    rw [if_neg hlt]
    rfl

/-- At the limit there is an error and nothing is counted. -/
theorem exec_enterCall_of_le {most : Nat} {m : Machine ι} (h : most ≤ m.depth) :
    (EvalM.enterCall (some most)).exec m = some (.error (.error (.tooDeep most)), m) := by
  change (if most ≤ m.depth then EvalM.fail _ else _ : EvalM ι Unit).exec m = _
  rw [if_pos h]
  rfl

/-! ## The ways a call ends -/

/-- How a call ends on a machine, given how a block is executed in a frame. -/
inductive CallEnds (limit : Option Nat) (body : FrameId → Block ι → EvalM ι (Value ι))
    (m : Machine ι) : Value ι → List (Value ι) → Outcome ι → Machine ι → Prop
  /-- A function is called with a wrong number of arguments. -/
  | arity {f : FnLiteral ι} {env : FrameId} {args : List (Value ι)} :
      f.parameters.length ≠ args.length →
      CallEnds limit body m (.closure f env) args
        (.error (.error (.arity f.parameters.length args.length))) m
  /-- As many calls are in progress as the limit allows. -/
  | tooDeep {f : FnLiteral ι} {env : FrameId} {args : List (Value ι)} {most : Nat} :
      f.parameters.length = args.length → limit = some most → most ≤ m.depth →
      CallEnds limit body m (.closure f env) args (.error (.error (.tooDeep most))) m
  /-- The body of a function ends, with a value, a `return` or an error. -/
  | closure {f : FnLiteral ι} {env : FrameId} {args : List (Value ι)} {o : Outcome ι}
      {m' : Machine ι} :
      f.parameters.length = args.length → Admits limit m.depth →
      (body m.store.next f.body).exec (m.enter f env args) = some (o, m') →
      CallEnds limit body m (.closure f env) args (o.result.mapError .error) m'.leave
  /-- A builtin gives its result. -/
  | builtin {b : Builtin} {args : List (Value ι)} :
      CallEnds limit body m (.builtin b) args ((b.call args m.printer).1.mapError .error)
        { m with printer := (b.call args m.printer).2 }
  /-- What is called is neither a function nor a builtin. -/
  | notCallable {callee : Value ι} {args : List (Value ι)} :
      callee.type ≠ .function → callee.type ≠ .builtin →
      CallEnds limit body m callee args (.error (.error (.notCallable callee.type))) m

variable {limit : Option Nat} {body : FrameId → Block ι → EvalM ι (Value ι)}

theorem exec_callClosure_of_admits {m : Machine ι} (h : Admits limit m.depth) (f : FnLiteral ι)
    (env : FrameId) (args : List (Value ι)) :
    (callClosure limit body f env args).exec m =
      ((body m.store.next f.body).exec (m.enter f env args)).map fun (o, m') =>
        ((Outcome.result o).mapError .error, m'.leave) := by
  rw [callClosure, EvalM.exec_bind, exec_enterCall_of_admits h]
  simp only [EvalM.exec_bind, EvalM.exec_enclose, exec_bindAll, EvalM.exec_outcome,
    EvalM.exec_leaveCall, EvalM.exec_landing]
  simp only [Machine.enter, Store.enter]
  generalize (body m.store.next f.body).exec _ = x
  rcases x with _ | ⟨o, m'⟩ <;> rfl

/-- A call finishes exactly in the ways listed. -/
theorem exec_callWith_iff {callee : Value ι} {args : List (Value ι)} {m m' : Machine ι}
    {o : Outcome ι} :
    (callWith limit body callee args).exec m = some (o, m') ↔
      CallEnds limit body m callee args o m' := by
  constructor
  · intro h
    cases callee with
    | closure f env =>
      rw [callWith] at h
      split at h
      · rename_i hlen
        by_cases had : Admits limit m.depth
        · rw [exec_callClosure_of_admits had, Option.map_eq_some_iff] at h
          obtain ⟨⟨o', m₁⟩, hbody, h⟩ := h
          cases h
          exact .closure hlen had hbody
        · obtain ⟨most, rfl, hle⟩ := not_admits_iff.1 had
          rw [callClosure, EvalM.exec_bind, exec_enterCall_of_le hle] at h
          cases h
          exact .tooDeep hlen rfl hle
      · rename_i hlen
        cases h
        exact .arity hlen
    | builtin b =>
      rw [callWith, EvalM.exec_callBuiltin] at h
      cases h
      exact .builtin
    | _ =>
      cases h
      exact .notCallable (by simp [Value.type]) (by simp [Value.type])
  · intro h
    cases h with
    | arity hlen => rw [callWith, if_neg hlen]; rfl
    | tooDeep hlen hlim hle =>
      subst hlim
      rw [callWith, if_pos hlen, callClosure, EvalM.exec_bind, exec_enterCall_of_le hle]
    | closure hlen had hbody =>
      rw [callWith, if_pos hlen, exec_callClosure_of_admits had, hbody]
      rfl
    | builtin => rw [callWith, EvalM.exec_callBuiltin]
    | notCallable hf hb =>
      cases callee with
      | closure f env => exact absurd rfl hf
      | builtin b => exact absurd rfl hb
      | _ => rfl

/-- A call under a limit finishes exactly in the ways listed, its body executed
with calls under the same limit. -/
theorem exec_call_iff {callee : Value ι} {args : List (Value ι)} {m m' : Machine ι}
    {o : Outcome ι} :
    (call limit callee args).exec m = some (o, m') ↔
      CallEnds limit (Block.eval (call limit)) m callee args o m' := by
  rw [call_eq, exec_callWith_iff]

/-- A call of a function without parameters evaluates the body in a new frame. -/
theorem exec_call_parameterless {m : Machine ι} (h : Admits limit m.depth) (label : ι)
    (b : Block ι) (env : FrameId) :
    (call limit (.closure ⟨label, [], b⟩ env) []).exec m =
      ((Block.eval (call limit) m.store.next b).exec
        ⟨m.store.push (some env), m.printer, m.depth + 1⟩).map fun (o, m') =>
          ((Outcome.result o).mapError .error, m'.leave) := by
  rw [call_eq, callWith]
  exact exec_callClosure_of_admits h _ env []

end Monkey
