import Monkey.Eval.Approximation
import Monkey.Proofs.Course

/-!
# Monkey — errors cannot be caught

An error passes from what a moment opens to the moment itself, so it passes from any
depth of calls, blocks and operands to the whole evaluation, and nothing is
evaluated, printed or bound on its way (`errors_end_everything`). Every error comes
from a moment that raises it.
-/

namespace Monkey

variable {ι : Type} {limit : Option Nat}

namespace Moment

variable {x y : Moment ι} {err : EvalError} {m : Machine ι}

/-- A moment ends with the error of what it opens, in the state in which that one
ends. -/
theorem Opens.error {i : Step} (h : x.Opens limit i y)
    (hy : y.Ends limit (.error (.error err)) m) :
    x.Ends limit (.error (.error err)) { m with depth := x.machine.depth } := by
  have hev := (ends_iff.1 hy).2
  exact ends_iff.2 ⟨rfl, h.begins.error hev⟩

/-- So it does with the error of anything in its course. -/
theorem Course.error {p : Place} (h : x.Course limit p y)
    (hy : y.Ends limit (.error (.error err)) m) :
    x.Ends limit (.error (.error err)) { m with depth := x.machine.depth } := by
  induction h with
  | @here x =>
    rw [← hy.depth_eq]
    exact hy
  | inside hopens _ ih =>
    have h := hopens.error (ih hy)
    exact h

/-- Nothing comes about later than a moment that ends with an error. -/
theorem Course.not_later_of_error {z : Moment ι} {p q : Place} (hy : x.Course limit p y)
    (herr : y.Ends limit (.error (.error err)) m) (hz : x.Course limit q z) : ¬ q.Later p := by
  refine hy.not_later (fun c w hc hw => ?_) hz
  obtain ⟨r, rfl⟩ := hc
  obtain ⟨w', hw', hy⟩ := append_iff.1 hy
  obtain rfl := hw.unique hw'
  exact ⟨_, _, hy.error herr⟩

/-- A moment that ends with an error comes to one that raises it, in the state in
which it ends. -/
theorem Ends.exists_raises (h : x.Ends limit (.error (.error err)) m) :
    ∃ p y, x.Course limit p y ∧
      Raises limit y.machine.depth y.task y.machine.state err m.state := by
  obtain ⟨d, k, t, s, hreaches, hraises⟩ := evaluates_error_iff.1 (ends_iff.1 h).2
  obtain ⟨p, hcourse⟩ := hreaches.course
  exact ⟨p, _, hcourse, hraises⟩

/-- A moment that raises an error ends with it, in the state in which it raises it. -/
theorem ends_of_raises {s : State ι}
    (h : Raises limit x.machine.depth x.task x.machine.state err s) :
    x.Ends limit (.error (.error err)) (s.machine x.machine.depth) :=
  ends_iff.2 ⟨rfl, h.evaluates⟩

end Moment

/-- **Errors cannot be caught, and end everything at once.** If anything in the course
of an evaluation ends with an error, at any nesting of calls, the whole evaluation
ends with that error. It was raised by an operator, a lookup, a builtin or a check,
and the frames and the printed text at the end are those in which it was raised;
nothing comes about later. Conversely, an evaluation ends with an error only if the
error is raised in its course. -/
theorem errors_end_everything (limit : Option Nat) (m : Machine ι) (phrase : Phrase ι)
    (env : FrameId) :
    (∀ place y err m₁, Moment.Course limit ⟨phrase.task env, m⟩ place y →
      y.Ends limit (.error (.error err)) m₁ →
      m.evaluate limit phrase env = some (.error (.error err), { m₁ with depth := m.depth }) ∧
      ∃ inner z, y.Course limit inner z ∧
        Raises limit z.machine.depth z.task z.machine.state err m₁.state ∧
        ∀ place' w, Moment.Course limit ⟨phrase.task env, m⟩ place' w →
          ¬ place'.Later (place ++ inner)) ∧
    ∀ err m', m.evaluate limit phrase env = some (.error (.error err), m') →
      ∃ place z, Moment.Course limit ⟨phrase.task env, m⟩ place z ∧
        Raises limit z.machine.depth z.task z.machine.state err m'.state := by
  constructor
  · intro place y err m₁ hy hends
    refine ⟨Machine.evaluate_eq_some_iff.2 (hy.error hends), ?_⟩
    obtain ⟨inner, z, hz, hraises⟩ := hends.exists_raises
    refine ⟨inner, z, hz, hraises, fun place' w hw => ?_⟩
    have hcourse := Moment.Course.append_iff.2 ⟨y, hy, hz⟩
    exact hcourse.not_later_of_error (Moment.ends_of_raises hraises) hw
  · intro err m' h
    exact (Machine.evaluate_eq_some_iff.1 h).exists_raises

attribute [local semireducible] Pending.write Store.lookup

/-- A function that fails in its body, in an operand, called in an operand of a `let`
value after an argument of the call has printed a line: the other operand, which
prints, is not evaluated, the name is not bound, and the next statement is not
executed. -/
theorem errors_end_everything_in_a_call :
    let f : FnLiteral Unit := ⟨(), ["x"], [.expr (.unary .neg (.bool true)), .expr (.int 1)]⟩
    let log (s : String) : Expr Unit := .call (.ident "log") [.str s]
    let p : Program Unit :=
      ⟨[.bind "y" (.binary .add (.call (.fn f) [log "a"]) (log "b")), .expr (log "c")]⟩
    let m : Machine Unit := Machine.fresh (.buffer "")
    let place : Place := [.part 0, .part 0, .part 0, .part 2, .body, .part 0, .part 0]
    ∃ m', m.evaluate none (.program p) Machine.root =
        some (.error (.error (.unknownUnary .neg .boolean)), m') ∧
      m'.printer = .buffer "a\n" ∧ m'.store.lookup Machine.root "y" = none ∧
      ∀ place' w, Moment.Course none ⟨.program Machine.root p.statements, m⟩ place' w →
        ¬ place'.Later place := by
  intro f log p m place
  have hargs : ((Expr.evalList (call none) Machine.root [log "a"]).exec m) =
      some (.ok [.null], { m with printer := .buffer "a\n" }) :=
    Expr.evalList_rel (EvalM.le.compatible _) (callNested_le none 1) _ (fun _ _ => trivial) _ _ rfl
  let m₁ : Machine Unit := { m with printer := .buffer "a\n" }
  let y : Moment Unit :=
    ⟨.expression 1 (.unary .neg (.bool true)), m₁.enter f Machine.root [.null]⟩
  have hf : Moment.Ends none ⟨.expression Machine.root (.fn f), m⟩
      (.ok (.closure f Machine.root)) m := rfl
  have hadmits : Admits none m.depth := by
    intro _ h
    cases h
  have hcourse : Moment.Course none ⟨.program Machine.root p.statements, m⟩ place y :=
    .inside .programFirst <| .inside .bind <| .inside .binaryLeft <|
      .inside (.application hf hargs) <|
      .inside (.body rfl hadmits) <| .inside .blockFirst <| .inside .expr .here
  have hends : y.Ends none (.error (.error (.unknownUnary .neg .boolean))) y.machine := rfl
  obtain ⟨hrun, inner, z, -, -, hlast⟩ :=
    (errors_end_everything none m (.program p) Machine.root).1 place y _ _ hcourse hends
  exact ⟨_, hrun, rfl, rfl, fun place' w hw hlater => hlast place' w hw (hlater.append inner)⟩

end Monkey
