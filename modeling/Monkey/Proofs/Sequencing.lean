import Monkey.Eval.Approximation
import Monkey.Proofs.Termination

/-!
# Monkey — three ways of running statements in order

Statements run as a block, as a program and as the body of a function. A block hands a
pending `return` on, and each of the other two turns it into its value: a program statement
by statement, a call once its body has ended (`Outcome.settled`). So the three differ in
nothing else (`sequencing_paths_agree`): a call without arguments is the program in a new
frame with one more call in progress, and gives the depth back as it found it.
-/

namespace Monkey

variable {ι : Type}

/-- How an evaluation ends, with the value of a pending `return` for the `return`. -/
def Outcome.settled : Outcome ι → Outcome ι
  | .ok v => .ok v
  | .error (.returned v) => .ok v
  | .error (.error e) => .error (.error e)

theorem Outcome.mapError_result (o : Outcome ι) :
    (Outcome.result o).mapError .error = Outcome.settled o := by
  rcases o with (e | v) | v <;> rfl

variable (limit : Option Nat)

/-- A program ends as the block of its statements does, but for a pending `return`. -/
theorem Machine.evaluate_program (m : Machine ι) (ss : List (Stmt ι)) (r : FrameId) :
    m.evaluate limit (.program ⟨ss⟩) r =
      (m.evaluate limit (.block ss) r).map fun (o, m') => (Outcome.settled o, m') := by
  rw [evaluate, evaluate, Phrase.eval, Phrase.eval, Program.eval_eq_landed, EvalM.exec_landed]
  simp only [Outcome.mapError_result]

variable {limit}

/-- The call of a function without parameters is the program of its body, run in a new frame
with one more call in progress. -/
theorem exec_call_eq_program {m : Machine ι} (h : Admits limit m.depth) (label : ι)
    (ss : List (Stmt ι)) (r : FrameId) :
    (call limit (.closure ⟨label, [], ss⟩ r) []).exec m =
      (Machine.evaluate { (m.addFrame (some r)).2 with depth := m.depth + 1 } limit
        (.program ⟨ss⟩) (m.addFrame (some r)).1).map
          fun (o, m') => (o, { m' with depth := m.depth }) := by
  rw [exec_call_parameterless h, Machine.evaluate_program, Option.map_map]
  refine Option.map_congr fun ⟨o, m'⟩ hrun => Prod.ext (Outcome.mapError_result o) ?_
  have hkept : m'.depth = m.depth + 1 :=
    (Phrase.block ss).eval_keeps_depth limit m.store.next _ o m' hrun
  change m'.leave = { m' with depth := m.depth }
  rw [Machine.leave, hkept, Nat.add_sub_cancel]

/-- **The ways of running statements in order agree**, on every machine and in every frame,
whether or not the statements come to an end. As a program they have the outcome, the printed
text and the store that they have as a block, with the value of a pending `return` for the
`return`. As the body of a function without parameters, where the limit admits the call, they
have the outcome, the printed text and the store, the new frame with it, that they have as a
program in a new frame with one more call in progress. -/
theorem sequencing_paths_agree (limit : Option Nat) (ss : List (Stmt ι)) (m : Machine ι)
    (r : FrameId) :
    (m.evaluate limit (.program ⟨ss⟩) r =
      (m.evaluate limit (.block ss) r).map fun (o, m') => (Outcome.settled o, m')) ∧
    (m.run limit ⟨ss⟩ r =
      (m.evaluate limit (.block ss) r).map fun (o, m') => (Outcome.result o, m')) ∧
    ∀ label : ι, Admits limit m.depth →
      (call limit (.closure ⟨label, [], ss⟩ r) []).exec m =
        (Machine.evaluate { (m.addFrame (some r)).2 with depth := m.depth + 1 } limit
          (.program ⟨ss⟩) (m.addFrame (some r)).1).map
            fun (o, m') => (o, { m' with depth := m.depth }) :=
  ⟨m.evaluate_program limit ss r, m.run_eq limit ⟨ss⟩ r,
    fun label h => exec_call_eq_program h label ss r⟩

attribute [local semireducible] Pending.write Store.lookup

/-- Statements that call a function, print and return before their end. -/
theorem sequencing_paths_agree_early_return :
    let seven : FnLiteral Unit := ⟨(), [], [.ret (.ident "x")]⟩
    let ss : List (Stmt Unit) := [.bind "y" (.call (.fn seven) []),
      .expr (.call (.ident "log") [.ident "y"]), .ret (.ident "y"), .expr (.ident "z")]
    let m : Machine Unit := (Machine.fresh (.buffer "")).bind Machine.root "x" (.int 7)
    ∃ m₁ m₂ : Machine Unit,
      m.evaluate (some 2) (.block ss) Machine.root = some (.error (.returned (.int 7)), m₁) ∧
      m.evaluate (some 2) (.program ⟨ss⟩) Machine.root = some (.ok (.int 7), m₁) ∧
      Machine.evaluate { (m.addFrame (some Machine.root)).2 with depth := 1 } (some 2)
        (.program ⟨ss⟩) 1 = some (.ok (.int 7), m₂) ∧
      (call (some 2) (.closure ⟨(), [], ss⟩ Machine.root) []).exec m =
        some (.ok (.int 7), { m₂ with depth := 0 }) ∧
      m₂.printer = .buffer "7\n" ∧ m₂.store.lookup 1 "y" = some (.int 7) := by
  intro seven ss m
  let start : Machine Unit := { (m.addFrame (some Machine.root)).2 with depth := 1 }
  have hblock : (m.evaluate (some 2) (.block ss) Machine.root).map (·.1) =
      some (.error (.returned (.int 7))) :=
    Machine.map_evaluate_of_nested 1 rfl
  have hinner : (start.evaluate (some 2) (.program ⟨ss⟩) 1).map
      (fun r => (r.1, r.2.printer, r.2.store.lookup 1 "y")) =
        some (.ok (.int 7), .buffer "7\n", some (.int 7)) :=
    Machine.map_evaluate_of_nested 1 rfl
  obtain ⟨⟨o, m₁⟩, hrun, rfl⟩ := Option.map_eq_some_iff.1 hblock
  obtain ⟨⟨o', m₂⟩, hrun', heq⟩ := Option.map_eq_some_iff.1 hinner
  obtain ⟨rfl, hseen⟩ := Prod.mk.inj heq
  obtain ⟨hprinter, hlookup⟩ := Prod.mk.inj hseen
  have hadmits : Admits (some 2) m.depth := by
    rintro _ ⟨⟩
    exact Nat.zero_lt_two
  obtain ⟨hprogram, -, hcall⟩ := sequencing_paths_agree (some 2) ss m Machine.root
  refine ⟨m₁, m₂, hrun, ?_, hrun', ?_, hprinter, hlookup⟩
  · rw [hprogram, hrun]
    rfl
  · rw [hcall () hadmits]
    exact congrArg (Option.map _) hrun'

end Monkey
