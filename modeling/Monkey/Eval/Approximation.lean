import Monkey.Eval.Evaluator

/-!
# Monkey — runs with calls nested so deep

The meaning of calls is a least solution, which does not unfold. With calls nested no deeper
than a given number an evaluation is a recursion on the tree and on that number, and what
finishes so finishes in the same way without the number (`callNested_le`). So a closed run is
computed, by `rfl`; `Store.lookup` and `Pending.write`, whose recursion is on a measure, have
to be made to unfold for it.
-/

namespace Monkey

variable {ι : Type}

/-- The meaning of calls that are nested at most so deep. A deeper one does not finish. -/
def callNested (limit : Option Nat) : Nat → Value ι → List (Value ι) → EvalM ι (Value ι)
  | 0, _, _ => EvalM.ofExec fun _ => none
  | n + 1, callee, args => callWith limit (Block.eval (callNested limit n)) callee args

/-- A call that finishes so finishes in the same way. -/
theorem callNested_le (limit : Option Nat) (n : Nat) (callee : Value ι)
    (args : List (Value ι)) : (callNested limit n callee args).le (call limit callee args) := by
  induction n generalizing callee args with
  | zero => exact fun _ _ => nofun
  | succ n ih =>
    rw [callNested, call_eq]
    exact callWith_le limit (Block.eval_le ih) callee args

section Runs

variable {β : Type} {limit : Option Nat} {m : Machine ι} {f : Outcome ι × Machine ι → β} {b : β}

theorem EvalM.le.map_exec {x y : EvalM ι (Value ι)} (hxy : x.le y)
    (h : (x.exec m).map f = some b) : (y.exec m).map f = some b := by
  obtain ⟨r, hr, rfl⟩ := Option.map_eq_some_iff.1 h
  rw [hxy m r hr, Option.map_some]

/-- What a phrase comes to with calls nested so deep it comes to. -/
theorem Machine.map_evaluate_of_nested (n : Nat) {phrase : Phrase ι} {env : FrameId}
    (h : ((phrase.eval (callNested limit n) env).exec m).map f = some b) :
    (m.evaluate limit phrase env).map f = some b :=
  EvalM.le.map_exec (Phrase.eval_rel (EvalM.le.compatible env) (callNested_le limit n) phrase
    fun _ _ => trivial) h

/-- What the run of a program comes to in the same way it comes to. -/
theorem Machine.map_run_of_nested (n : Nat) {p : Program ι} {env : FrameId}
    {g : Except EvalError (Value ι) × Machine ι → β}
    (h : (((Phrase.program p).eval (callNested limit n) env).exec m).map
      (fun r => g (Outcome.result r.1, r.2)) = some b) : (m.run limit p env).map g = some b := by
  rw [Machine.run, Option.map_map]
  exact Machine.map_evaluate_of_nested n h

/-- And what a call comes to. -/
theorem map_exec_call_of_nested (n : Nat) {callee : Value ι} {args : List (Value ι)}
    (h : ((callNested limit n callee args).exec m).map f = some b) :
    ((call limit callee args).exec m).map f = some b :=
  EvalM.le.map_exec (callNested_le limit n callee args) h

end Runs

end Monkey
