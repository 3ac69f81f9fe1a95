import Monkey.Eval.Approximation
import Monkey.Proofs.Reachable
import Monkey.Proofs.Termination
import Monkey.Proofs.Unread

/-!
# Monkey — the count of calls in progress

The number of calls in progress is raised in one place and lowered in another, with the
whole body of a function between them. An application is refused where the count has come
to the limit, and otherwise goes as its body does with the count one higher
(`CountsApplication`). So the count is right at every moment of a run: it is the number of
bodies that have begun and not ended, which the place of the moment tells, and whatever ends
gives back what it took (`call_depth_is_accounted`). Nothing is left of a run but its frames
and its text, and a machine at rest goes on as a new one would.
-/

namespace Monkey

variable {ι : Type} {limit : Option Nat}

/-! ## Applications and the count -/

/-- How the application of a function to as many arguments as it has parameters goes with the
count of calls in progress. -/
structure CountsApplication (limit : Option Nat) (f : FnLiteral ι) (env : FrameId)
    (args : List (Value ι)) (m : Machine ι) : Prop where
  /-- Below the limit the count is raised, the body is begun with one more call in progress,
  and the application ends exactly as the body does, the count lowered again. -/
  admitted : Admits limit m.depth →
    (EvalM.enterCall limit).exec m = some (.ok (), { m with depth := m.depth + 1 }) ∧
    (m.enter f env args).depth = m.depth + 1 ∧
    Moment.Opens limit ⟨.apply (.closure f env) args, m⟩ .body
      ⟨.block m.store.next f.body, m.enter f env args⟩ ∧
    ∀ o m', Moment.Ends limit ⟨.apply (.closure f env) args, m⟩ o m' ↔
      ∃ (o' : Outcome ι) (m₁ : Machine ι),
        Moment.Ends limit ⟨.block m.store.next f.body, m.enter f env args⟩ o' m₁ ∧
        EvalM.leaveCall.exec m₁ = some (.ok (), m') ∧ o = o'.result.mapError .error
  /-- At the limit no body is begun, and the application ends at once with an error. -/
  refused : ∀ most, limit = some most → most ≤ m.depth →
    (EvalM.enterCall limit).exec m = some (.error (.error (.tooDeep most)), m) ∧
    (∀ y, ¬ Moment.Opens limit ⟨.apply (.closure f env) args, m⟩ .body y) ∧
    ∀ o m', Moment.Ends limit ⟨.apply (.closure f env) args, m⟩ o m' ↔
      o = .error (.error (.tooDeep most)) ∧ m' = m

section Applications

variable {f : FnLiteral ι} {env : FrameId} {args : List (Value ι)} {m m' : Machine ι}
  {o : Outcome ι}

/-- **Where the limit admits the call, an application ends as its body does.** -/
theorem Moment.ends_application_iff_of_admits (hlen : f.parameters.length = args.length)
    (had : Admits limit m.depth) :
    Moment.Ends limit ⟨.apply (.closure f env) args, m⟩ o m' ↔
      ∃ (o' : Outcome ι) (m₁ : Machine ι),
        Moment.Ends limit ⟨.block m.store.next f.body, m.enter f env args⟩ o' m₁ ∧
        EvalM.leaveCall.exec m₁ = some (.ok (), m') ∧ o = o'.result.mapError .error := by
  refine exec_call_iff.trans ⟨fun h => ?_, ?_⟩
  · cases h with
    | arity hne => exact absurd hlen hne
    | tooDeep _ hlim hle => exact absurd (had _ hlim) (Nat.not_lt.2 hle)
    | closure _ _ hbody => exact ⟨_, _, hbody, rfl, rfl⟩
    | notCallable hf _ => exact absurd rfl hf
  · rintro ⟨o', m₁, hbody, hleave, rfl⟩
    cases hleave
    exact .closure hlen had hbody

/-- **Where as many calls are in progress as the limit allows, an application ends at once.** -/
theorem Moment.ends_application_iff_of_le {most : Nat}
    (hlen : f.parameters.length = args.length) (hle : most ≤ m.depth) :
    Moment.Ends (some most) ⟨.apply (.closure f env) args, m⟩ o m' ↔
      o = .error (.error (.tooDeep most)) ∧ m' = m := by
  refine exec_call_iff.trans ⟨fun h => ?_, ?_⟩
  · cases h with
    | arity hne => exact absurd hlen hne
    | tooDeep _ hlim _ =>
      cases hlim
      exact ⟨rfl, rfl⟩
    | closure _ had _ => exact absurd (had most rfl) (Nat.not_lt.2 hle)
    | notCallable hf _ => exact absurd rfl hf
  · rintro ⟨rfl, rfl⟩
    exact .tooDeep hlen rfl hle

/-- Every application of a function to as many arguments as it has parameters is counted. -/
theorem countsApplication (limit : Option Nat) (hlen : f.parameters.length = args.length)
    (env : FrameId) (m : Machine ι) : CountsApplication limit f env args m where
  admitted had := ⟨exec_enterCall_of_admits had, rfl, .body hlen had,
    fun _ _ => Moment.ends_application_iff_of_admits hlen had⟩
  refused := by
    rintro most rfl hle
    refine ⟨exec_enterCall_of_le hle, fun y hy => ?_,
      fun _ _ => Moment.ends_application_iff_of_le hlen hle⟩
    cases hy with
    | body _ had => exact absurd (had most rfl) (Nat.not_lt.2 hle)

end Applications

/-! ## Moments and the count -/

/-- At the end of a body its call is still counted, so there is one to take off. -/
theorem Moment.Course.leave_depth {x y : Moment ι} {outer : Place}
    (h : x.Course limit (outer ++ [Step.body]) y) {r : Except (Interrupt ι) (y.kind.Answer ι)}
    {m : Machine ι} (hends : y.Ends limit r m) : m.leave.depth + 1 = m.depth := by
  have hdepth := hends.depth_eq.trans h.depth_eq
  rw [List.count_append, List.count_singleton_self] at hdepth
  change m.depth - 1 + 1 = m.depth
  omega

/-- A machine without calls in progress evaluates a phrase as a new one on the same
frames does. -/
theorem Machine.evaluate_on_new {m m' : Machine ι} (hm : m.depth = 0) {phrase : Phrase ι}
    {env : FrameId} {o : Outcome ι} (h : m.evaluate limit phrase env = some (o, m'))
    (p : Printer) :
    ∃ text, m'.printer = m.printer.append text ∧
      Machine.evaluate ⟨m.store, p, 0⟩ limit phrase env =
        some (o, ⟨m'.store, p.append text, 0⟩) := by
  have hm' : m'.depth = 0 := (phrase.eval_keeps_depth limit env m o m' h).trans hm
  obtain ⟨text, htext, hp⟩ := (phrase.eval_unread limit env).exists_append h
  obtain ⟨s, q, _⟩ := m
  obtain ⟨s', q', _⟩ := m'
  cases hm
  cases hm'
  exact ⟨text, htext, hp p⟩

theorem Machine.evaluate_on_new_eq_none {m : Machine ι} (hm : m.depth = 0) {phrase : Phrase ι}
    {env : FrameId} (h : m.evaluate limit phrase env = none) (p : Printer) :
    Machine.evaluate ⟨m.store, p, 0⟩ limit phrase env = none := by
  obtain ⟨s, q, _⟩ := m
  cases hm
  exact (phrase.eval_unread limit env).eq_none h p

/-- **Calls in progress are counted.** The application of a function to as many arguments as
it has parameters raises the count for its body and lowers it after it, or is refused at the
limit. At every moment in the course of what is evaluated or applied on a machine at rest,
the count is the number of functions whose bodies have begun and not ended; it never passes
the limit; the moment ends exactly as the rules say for that number of calls in progress, and
with the count it began with, whatever the result; and at the end of a body there is a call
to take off. So on a machine at rest, after whatever runs, a phrase is evaluated as on a new
machine with the same frames: with the same outcome, the same frames and the same text, or
without end. -/
theorem call_depth_is_accounted (limit : Option Nat) {m : Machine ι} (hm : m.AtRest) :
    (∀ (f : FnLiteral ι) env args (m₁ : Machine ι), f.parameters.length = args.length →
      CountsApplication limit f env args m₁) ∧
    (∀ {k : Kind} (t : Task ι k) place y, Moment.Course limit ⟨t, m⟩ place y →
      y.machine.depth = place.count .body ∧
      (∀ most, limit = some most → y.machine.depth ≤ most) ∧
      (∀ r m₁, y.Ends limit r m₁ ↔ m₁.depth = place.count .body ∧
        Evaluates limit (place.count .body) y.task y.machine.state r m₁.state) ∧
      ∀ r m₁, y.Ends limit r m₁ → m₁.depth = y.machine.depth ∧
        ∀ outer, place = outer ++ [.body] → m₁.leave.depth + 1 = m₁.depth) ∧
    ∀ phrase env (p : Printer),
      (∀ o m', m.evaluate limit phrase env = some (o, m') →
        ∃ text, m'.printer = m.printer.append text ∧
          Machine.evaluate ⟨m.store, p, 0⟩ limit phrase env =
            some (o, ⟨m'.store, p.append text, 0⟩)) ∧
      (m.evaluate limit phrase env = none →
        Machine.evaluate ⟨m.store, p, 0⟩ limit phrase env = none) := by
  have hzero := hm.depth_eq_zero
  refine ⟨fun f env args m₁ hlen => countsApplication limit hlen env m₁, ?moments, ?runs⟩
  case moments =>
    intro k t place y hy
    have hcount : y.machine.depth = place.count .body := by
      rw [hy.depth_eq, hzero, Nat.zero_add]
    refine ⟨hcount, ?_, fun r m₁ => ?_, fun r m₁ hends => ⟨hends.depth_eq, ?_⟩⟩
    · rintro most rfl
      exact hy.depth_le (hzero ▸ Nat.zero_le most)
    · rw [← hcount]
      exact Moment.ends_iff
    · rintro outer rfl
      exact hy.leave_depth hends
  case runs =>
    exact fun phrase env p => ⟨fun o m' h => Machine.evaluate_on_new hzero h p,
      fun h => Machine.evaluate_on_new_eq_none hzero h p⟩

attribute [local semireducible] Store.lookup

/-- A recursion without end, cut short by a limit, and then a call inside a call, which
the limit just admits: it goes as on a new machine. With both calls in progress the inner
function could not be applied once more. -/
theorem call_depth_is_accounted_after_a_failure :
    let f : FnLiteral Unit := ⟨(), [], [.expr (.call (.ident "f") [])]⟩
    let g : FnLiteral Unit := ⟨(), [], [.expr (.call (.ident "len") [.str "ab"])]⟩
    let h : FnLiteral Unit := ⟨(), [], [.expr (.call (.fn g) [])]⟩
    let p : Program Unit := ⟨[.bind "f" (.fn f), .expr (.call (.ident "f") [])]⟩
    let q : Phrase Unit := .expression (.call (.fn h) [])
    let m : Machine Unit := Machine.fresh (.buffer "")
    ∃ m₁ m₂ : Machine Unit,
      m.evaluate (some 2) (.program p) Machine.root =
        some (.error (.error (.tooDeep 2)), m₁) ∧
      m₁.depth = 0 ∧ m₁.evaluate (some 2) q Machine.root = some (.ok (.int 2), m₂) ∧
      Machine.evaluate ⟨m₁.store, .silent, 0⟩ (some 2) q Machine.root =
        some (.ok (.int 2), ⟨m₂.store, .silent, 0⟩) ∧
      Moment.Ends (some 2) ⟨.apply (.closure g Machine.root) [], { m₂ with depth := 2 }⟩
        (.error (.error (.tooDeep 2))) { m₂ with depth := 2 } := by
  intro f g h p q m
  have hruns : (m.evaluate (some 2) (.program p) Machine.root).map (fun r =>
      (r.1, ((q.eval (callNested (some 2) 3) Machine.root).exec r.2).map (·.1))) =
      some (.error (.error (.tooDeep 2)), some (.ok (.int 2))) :=
    Machine.map_evaluate_of_nested 3 rfl
  obtain ⟨⟨o, m₁⟩, hrun, heq⟩ := Option.map_eq_some_iff.1 hruns
  obtain ⟨rfl, hnext⟩ := Prod.mk.inj heq
  obtain ⟨⟨o', m₂⟩, hrun', rfl⟩ :=
    Option.map_eq_some_iff.1 (Machine.map_evaluate_of_nested 3 hnext)
  have hends := Machine.evaluate_eq_some_iff.1 hrun
  have hm : m.AtRest := .frame none (.built _)
  have hroot : ((Phrase.program p).task Machine.root).Within m.store.next := Nat.zero_lt_one
  have hm₁ : m₁.AtRest := .ends hm hroot hends
  obtain ⟨-, -, -, hgiven⟩ := (call_depth_is_accounted (some 2) hm).2.1 _ [] _ .here
  obtain ⟨happlied, -, hruns⟩ := call_depth_is_accounted (some 2) hm₁
  obtain ⟨text, -, hnew⟩ := (hruns q Machine.root .silent).1 _ _ hrun'
  obtain ⟨-, -, hrefused⟩ :=
    (happlied g Machine.root [] { m₂ with depth := 2 } rfl).refused 2 rfl (Nat.le_refl 2)
  exact ⟨m₁, m₂, hrun, (hgiven _ _ hends).1, hrun', hnew, (hrefused _ _).2 ⟨rfl, rfl⟩⟩

end Monkey
