import Monkey.Eval.Approximation
import Monkey.Proofs.Termination

/-!
# Monkey — running in pieces

Statements that are evaluated one by one, on one machine, leave it as a run of them all
leaves it; between them nothing is kept but the machine. So a run can be cut anywhere: what
comes before the cut is run, and if it ends with a value, what comes after it is run on the
machine that is left, however that machine came about (`pieces_run_as_a_whole`).
-/

namespace Monkey

variable {ι : Type}

/-- Evaluates statements one by one. Each is a phrase of its own; the first one that does not
end with a value is the last one. -/
def Machine.evaluateEach (limit : Option Nat) (env : FrameId) (last : Value ι) :
    List (Stmt ι) → Machine ι → Option (Outcome ι × Machine ι)
  | [], m => some (.ok last, m)
  | s :: ss, m =>
    match m.evaluate limit (.statement s) env with
    | some (.ok v, m') => evaluateEach limit env v ss m'
    | r => r

section Pieces

variable {limit : Option Nat} {env : FrameId} {m m' : Machine ι}

/-- One by one statements come to what they come to in order. -/
theorem Machine.evaluateEach_eq (last : Value ι) (ss : List (Stmt ι)) (m : Machine ι) :
    Machine.evaluateEach limit env last ss m =
      (Stmt.evalFrom (call limit) env last ss).exec m := by
  induction ss generalizing last m with
  | nil => rfl
  | cons s ss ih =>
    have hs : m.evaluate limit (.statement s) env = (s.eval (call limit) env).exec m := rfl
    rw [evaluateEach, Stmt.evalFrom, EvalM.exec_bind, hs]
    rcases (s.eval (call limit) env).exec m with _ | ⟨i | v, m'⟩
    · rfl
    · rfl
    · exact ih v m'

/-- One by one they come to what their block comes to. -/
theorem Machine.evaluateEach_null (ss : List (Stmt ι)) (m : Machine ι) :
    Machine.evaluateEach limit env .null ss m = m.evaluate limit (.block ss) env :=
  evaluateEach_eq .null ss m

/-- A run has the result of its statements one by one. -/
theorem Machine.run_eq_evaluateEach (ss : List (Stmt ι)) (m : Machine ι) :
    m.run limit ⟨ss⟩ env = (Machine.evaluateEach limit env .null ss m).map
      fun (o, m) => (o.result, m) := by
  rw [run_eq, evaluateEach_null]

/-- One after the other, pieces are evaluated one by one. -/
theorem Machine.evaluateEach_append (last : Value ι) (ss ts : List (Stmt ι)) (m : Machine ι) :
    Machine.evaluateEach limit env last (ss ++ ts) m =
      match Machine.evaluateEach limit env last ss m with
      | some (.ok v, m') => Machine.evaluateEach limit env v ts m'
      | r => r := by
  induction ss generalizing last m with
  | nil => rfl
  | cons s ss ih =>
    rw [List.cons_append, evaluateEach, evaluateEach]
    rcases m.evaluate limit (.statement s) env with _ | ⟨i | v, m'⟩
    · rfl
    · rfl
    · exact ih v m'

/-- If there are statements, the value is not the one given for none. -/
theorem Machine.evaluateEach_of_ne_nil {ss : List (Stmt ι)} (h : ss ≠ []) (last : Value ι)
    (m : Machine ι) :
    Machine.evaluateEach limit env last ss m = Machine.evaluateEach limit env .null ss m := by
  cases ss with
  | nil => exact absurd rfl h
  | cons s ss => rfl

end Pieces

/-- **Running in pieces is running the whole.** On any machine, and so after whatever an
interpreter did before: if the statements of `S`, one by one, end with a value, then the run
of `S` has that value, no call is left in progress, and the run of `S` followed by `T` has
the result, the frames and the text of the run of `T` on the machine that the run of `S`
leaves; if `T` is empty, it has those of the run of `S`. If they end with an error or a
pending `return`, the run of `S` followed by `T` is the run of `S`, whatever `T` is; and if
they do not end, neither run does. -/
theorem pieces_run_as_a_whole (limit : Option Nat) (env : FrameId) (m : Machine ι)
    (S T : List (Stmt ι)) :
    (∀ v m', Machine.evaluateEach limit env .null S m = some (.ok v, m') →
      m.run limit ⟨S⟩ env = some (.ok v, m') ∧ m'.depth = m.depth ∧
      m.run limit ⟨S ++ T⟩ env =
        if T = [] then some (.ok v, m') else m'.run limit ⟨T⟩ env) ∧
    (∀ i m', Machine.evaluateEach limit env .null S m = some (.error i, m') →
      m.run limit ⟨S⟩ env = some (Outcome.result (.error i), m') ∧ m'.depth = m.depth ∧
      m.run limit ⟨S ++ T⟩ env = some (Outcome.result (.error i), m')) ∧
    (Machine.evaluateEach limit env .null S m = none →
      m.run limit ⟨S⟩ env = none ∧ m.run limit ⟨S ++ T⟩ env = none) := by
  have hdepth : ∀ {o m'}, Machine.evaluateEach limit env .null S m = some (o, m') →
      m'.depth = m.depth := by
    intro o m' h
    rw [Machine.evaluateEach_null] at h
    exact Phrase.eval_keeps_depth limit env (.block S) m o m' h
  refine ⟨fun v m' h => ⟨?_, hdepth h, ?_⟩, fun i m' h => ⟨?_, hdepth h, ?_⟩, fun h => ⟨?_, ?_⟩⟩
  · rw [Machine.run_eq_evaluateEach, h]
    rfl
  · rw [Machine.run_eq_evaluateEach, Machine.evaluateEach_append, h]
    by_cases hT : T = []
    · rw [if_pos hT, hT]
      rfl
    · rw [if_neg hT, Machine.run_eq_evaluateEach, ← Machine.evaluateEach_of_ne_nil hT v]
  · rw [Machine.run_eq_evaluateEach, h]
    rfl
  · rw [Machine.run_eq_evaluateEach, Machine.evaluateEach_append, h]
    rfl
  · rw [Machine.run_eq_evaluateEach, h]
    rfl
  · rw [Machine.run_eq_evaluateEach, Machine.evaluateEach_append, h]
    rfl

attribute [local semireducible] Pending.write Store.lookup

/-- A closure made in the first piece is called in the second one, where it prints and sees
what was bound meanwhile, on a machine that has bindings and text from before. After a
`return` the second piece is not run. -/
theorem pieces_run_as_a_whole_closure :
    let S : List (Stmt Unit) := [.bind "f" (.fn ⟨(), [],
      [.expr (.call (.ident "log") [.ident "x"]), .ret (.ident "x")]⟩), .bind "x" (.int 1)]
    let T : List (Stmt Unit) := [.bind "x" (.int 2), .expr (.call (.ident "f") [])]
    let R : List (Stmt Unit) := [.bind "x" (.int 5), .ret (.int 3)]
    let m : Machine Unit := (Machine.fresh (.buffer "y\n")).bind Machine.root "x" (.int 0)
    (∃ m₁ m₂, m.run (some 1) ⟨S⟩ Machine.root = some (.ok (.int 1), m₁) ∧
      m₁.run (some 1) ⟨T⟩ Machine.root = some (.ok (.int 2), m₂) ∧
      m₂.printer = .buffer "y\n2\n" ∧
      m.run (some 1) ⟨S ++ T⟩ Machine.root = some (.ok (.int 2), m₂)) ∧
    ∃ m₁, m.run (some 1) ⟨R⟩ Machine.root = some (.ok (.int 3), m₁) ∧
      m.run (some 1) ⟨R ++ T⟩ Machine.root = some (.ok (.int 3), m₁) := by
  intro S T R m
  constructor
  · have hruns : (m.evaluate (some 1) (.block S) Machine.root).map (fun r =>
        (r.1, (((Phrase.program ⟨T⟩).eval (callNested (some 1) 2) Machine.root).exec r.2).map
          fun r => (Outcome.result r.1, r.2.printer))) =
        some (.ok (.int 1), some (.ok (.int 2), .buffer "y\n2\n")) :=
      Machine.map_evaluate_of_nested 0 rfl
    rw [← Machine.evaluateEach_null] at hruns
    obtain ⟨⟨o, m₁⟩, h₁, heq⟩ := Option.map_eq_some_iff.1 hruns
    obtain ⟨rfl, hnext⟩ := Prod.mk.inj heq
    have hT : (m₁.run (some 1) ⟨T⟩ Machine.root).map (fun r => (r.1, r.2.printer)) =
        some (.ok (.int 2), .buffer "y\n2\n") := Machine.map_run_of_nested 2 hnext
    obtain ⟨⟨o', m₂⟩, h₂, heq⟩ := Option.map_eq_some_iff.1 hT
    obtain ⟨rfl, hprinter⟩ := Prod.mk.inj heq
    obtain ⟨hS, -, hwhole⟩ := (pieces_run_as_a_whole (some 1) Machine.root m S T).1 _ _ h₁
    refine ⟨m₁, m₂, hS, h₂, hprinter, ?_⟩
    rw [hwhole, if_neg (List.cons_ne_nil _ _)]
    exact h₂
  · have hrun : (m.evaluate (some 1) (.block R) Machine.root).map (·.1) =
        some (.error (.returned (.int 3))) :=
      Machine.map_evaluate_of_nested 0 rfl
    rw [← Machine.evaluateEach_null] at hrun
    obtain ⟨⟨o, m₁⟩, h₁, rfl⟩ := Option.map_eq_some_iff.1 hrun
    obtain ⟨hR, -, hwhole⟩ := (pieces_run_as_a_whole (some 1) Machine.root m R T).2.1 _ _ h₁
    exact ⟨m₁, hR, hwhole⟩

end Monkey
