import Monkey.Builtin.Call
import Monkey.Store

/-!
# Monkey — the state of a run

A run reads and changes the frames, the printed text and the number of calls in
progress. It can end in three ways: with a value, with an interrupt (an error,
or a `return` not yet at its boundary), or not at all. The state outlives an
interrupt, so everything bound and printed before an error is kept.
-/

namespace Monkey

/-- What a run changes. -/
structure Machine (ι : Type) where
  store : Store ι
  printer : Printer
  /-- The number of function calls in progress. -/
  depth : Nat

/-- What ends an evaluation that does not end with a value. -/
inductive Interrupt (ι : Type) where
  | error (e : EvalError)
  /-- A `return` with its value, on the way to the call or the program it ends. -/
  | returned (v : Value ι)

/-- How an evaluation ends. -/
abbrev Outcome (ι : Type) := Except (Interrupt ι) (Value ι)

/-- How an evaluation ends at the boundary of a `return`: a pending `return` is
its value. -/
def Outcome.result {ι : Type} : Outcome ι → Except EvalError (Value ι)
  | .ok v => .ok v
  | .error (.returned v) => .ok v
  | .error (.error e) => .error e

/-- The result of an operation on values, its error an interrupt, is an error where
the operation fails with it. -/
theorem mapError_eq_error_iff {ι β : Type} {r : Except EvalError β} {e : EvalError} :
    r.mapError (Interrupt.error : EvalError → Interrupt ι) = .error (.error e) ↔ r = .error e := by
  constructor
  · intro h
    cases r <;> cases h
    rfl
  · rintro rfl
    rfl

/-- Evaluations: they change the machine, may be interrupted, and `none` is one
that does not finish. -/
abbrev EvalM (ι : Type) := ExceptT (Interrupt ι) (StateT (Machine ι) Option)

namespace Machine

variable {ι : Type}

/-- A machine with one frame, a root without bindings, whose number is
`Machine.root`. -/
def fresh (printer : Printer) : Machine ι := ⟨Store.empty.push none, printer, 0⟩

/-- The root frame of a fresh machine. -/
def root : FrameId := 0

/-- Adds a frame, and gives its number. -/
def addFrame (m : Machine ι) (parent : Option FrameId) : FrameId × Machine ι :=
  (m.store.next, { m with store := m.store.push parent })

/-- Binds a name in a frame. -/
def bind (m : Machine ι) (env : FrameId) (name : String) (v : Value ι) : Machine ι :=
  { m with store := m.store.bind env name v }

end Machine

namespace EvalM

variable {ι : Type} {β : Type}

/-- Fails with an error. -/
def fail (e : EvalError) : EvalM ι β := throw (.error e)

/-- The evaluation that runs so. -/
def ofExec (run : Machine ι → Option (Except (Interrupt ι) β × Machine ι)) : EvalM ι β :=
  ExceptT.mk run

/-- Runs an evaluation on a machine. -/
def exec (x : EvalM ι β) (m : Machine ι) : Option (Except (Interrupt ι) β × Machine ι) :=
  x.run.run m

/-- The result of an operation on values, its error an interrupt. -/
def ofExcept : Except EvalError β → EvalM ι β
  | .ok b => pure b
  | .error e => fail e

/-- An identifier: a binding seen from the frame, or else a builtin of that
name. -/
def identifier (env : FrameId) (name : String) : EvalM ι (Value ι) := do
  match (← get).store.lookup env name with
  | some v => return v
  | none =>
    match Builtin.ofName? name with
    | some b => return .builtin b
    | none => fail (.unbound name)

/-- Binds a name in a frame. -/
def bindName (env : FrameId) (name : String) (v : Value ι) : EvalM ι Unit :=
  modify (·.bind env name v)

/-- Binds names to values in a frame, first to last; a name that comes twice
keeps the last value. -/
def bindAll (env : FrameId) : List String → List (Value ι) → EvalM ι Unit
  | x :: xs, v :: vs => do
    bindName env x v
    bindAll env xs vs
  | _, _ => return

/-- Makes a frame inside another one. -/
def enclose (env : FrameId) : EvalM ι FrameId := modifyGet (·.addFrame (some env))

/-- Calls a builtin. -/
def callBuiltin (b : Builtin) (args : List (Value ι)) : EvalM ι (Value ι) := do
  let result ← modifyGet fun m =>
    let (result, printer) := b.call args m.printer
    (result, { m with printer })
  ofExcept result

/-- Counts one more call in progress; an error where the limit is reached. -/
def enterCall (limit : Option Nat) : EvalM ι Unit := do
  let depth := (← get).depth
  match limit with
  | some most =>
    if most ≤ depth then fail (.tooDeep most)
    else modify fun m => { m with depth := m.depth + 1 }
  | none => modify fun m => { m with depth := m.depth + 1 }

/-- Counts one call in progress less. -/
def leaveCall : EvalM ι Unit := modify fun m => { m with depth := m.depth - 1 }

/-- How an evaluation ends, as a value: the evaluation that gives it is not
interrupted. -/
def outcome (x : EvalM ι (Value ι)) : EvalM ι (Outcome ι) := ExceptT.mk do
  let o ← x.run
  return .ok o

/-- The boundary of a `return`: its value is the value of the whole, an error
stays an error. -/
def landing (o : Outcome ι) : EvalM ι (Value ι) := ofExcept o.result

/-- An evaluation inside a boundary of a `return`. -/
def landed (x : EvalM ι (Value ι)) : EvalM ι (Value ι) := do
  landing (← outcome x)

/-! ## Running the parts -/

/-- Steps run one after the other. The second one is reached from a value only, on the machine
that the first one leaves. -/
theorem exec_bind {γ : Type} (x : EvalM ι β) (f : β → EvalM ι γ) (m : Machine ι) :
    (x >>= f).exec m = match x.exec m with
      | none => none
      | some (.ok b, m') => (f b).exec m'
      | some (.error i, m') => some (.error i, m') := by
  simp only [exec, ExceptT.run_bind, StateT.run_bind]
  rcases x.run.run m with _ | ⟨_ | b, m'⟩ <;> rfl

/-- A sequence finishes where its first part ends with a value and the rest
finishes, or where the first part is interrupted. -/
theorem exec_bind_eq_some {γ : Type} {x : EvalM ι β} {f : β → EvalM ι γ} {m m' : Machine ι}
    {r : Except (Interrupt ι) γ} :
    (x >>= f).exec m = some (r, m') ↔
      (∃ b m₁, x.exec m = some (.ok b, m₁) ∧ (f b).exec m₁ = some (r, m')) ∨
      ∃ i, x.exec m = some (.error i, m') ∧ r = .error i := by
  rw [exec_bind]
  rcases x.exec m with _ | ⟨i | b, m₁⟩
  · simp
  · constructor
    · intro h
      cases h
      exact .inr ⟨i, rfl, rfl⟩
    · rintro (⟨b, m₂, h, -⟩ | ⟨j, h, rfl⟩)
      · cases h
      · cases h
        rfl
  · constructor
    · exact fun h => .inl ⟨b, m₁, rfl, h⟩
    · rintro (⟨c, m₂, h, h'⟩ | ⟨j, h, -⟩)
      · cases h
        exact h'
      · cases h

theorem exec_bind_of_ok {γ : Type} {x : EvalM ι β} {m m₁ : Machine ι} {b : β}
    (h : x.exec m = some (.ok b, m₁)) (f : β → EvalM ι γ) : (x >>= f).exec m = (f b).exec m₁ := by
  rw [exec_bind, h]

theorem exec_bind_of_error {γ : Type} {x : EvalM ι β} {m m₁ : Machine ι} {i : Interrupt ι}
    (h : x.exec m = some (.error i, m₁)) (f : β → EvalM ι γ) :
    (x >>= f).exec m = some (.error i, m₁) := by
  rw [exec_bind, h]

variable (m : Machine ι)

@[simp] theorem exec_ofExec (run : Machine ι → Option (Except (Interrupt ι) β × Machine ι)) :
    (ofExec run).exec m = run m := rfl

@[simp] theorem exec_pure (b : β) : (pure b : EvalM ι β).exec m = some (.ok b, m) := rfl

@[simp] theorem exec_throw (i : Interrupt ι) :
    (throw i : EvalM ι β).exec m = some (.error i, m) := rfl

@[simp] theorem exec_fail (e : EvalError) :
    (fail e : EvalM ι β).exec m = some (.error (.error e), m) := rfl

@[simp] theorem exec_ofExcept (r : Except EvalError β) :
    (ofExcept r : EvalM ι β).exec m = some (r.mapError .error, m) := by
  cases r <;> rfl

/-- A name is looked up in the frames first, so a binding hides a builtin. -/
theorem exec_identifier (env : FrameId) (name : String) :
    (identifier env name).exec m = some
      (match m.store.lookup env name with
        | some v => .ok v
        | none =>
          match Builtin.ofName? name with
          | some b => .ok (.builtin b)
          | none => .error (.error (.unbound name)), m) := by
  rw [identifier, exec_bind]
  simp only [show (get : EvalM ι _).exec m = some (.ok m, m) from rfl]
  cases m.store.lookup env name with
  | some v => rfl
  | none => cases Builtin.ofName? name <;> rfl

@[simp] theorem exec_bindName (env : FrameId) (name : String) (v : Value ι) :
    (bindName env name v).exec m = some (.ok (), m.bind env name v) := rfl

@[simp] theorem exec_enclose (env : FrameId) :
    (enclose env).exec m =
      some (.ok m.store.next, { m with store := m.store.push (some env) }) := rfl

/-- A builtin changes the printer of the machine and nothing else. -/
@[simp] theorem exec_callBuiltin (b : Builtin) (args : List (Value ι)) :
    (callBuiltin b args).exec m =
      some ((b.call args m.printer).1.mapError .error,
        { m with printer := (b.call args m.printer).2 }) := by
  rw [callBuiltin, exec_bind]
  change (ofExcept (b.call args m.printer).1).exec _ = _
  rw [exec_ofExcept]
  rfl

@[simp] theorem exec_leaveCall :
    (leaveCall : EvalM ι Unit).exec m = some (.ok (), { m with depth := m.depth - 1 }) := rfl

@[simp] theorem exec_outcome (x : EvalM ι (Value ι)) :
    (outcome x).exec m = (x.exec m).map fun (o, m') => (.ok o, m') := by
  simp only [exec, outcome, ExceptT.run_mk, StateT.run_bind]
  cases x.run.run m <;> rfl

@[simp] theorem exec_landing (o : Outcome ι) :
    (landing o).exec m = some (o.result.mapError .error, m) := exec_ofExcept m o.result

/-- What is landed ends as it did, but for a pending `return`, which ends with its value. -/
@[simp] theorem exec_landed (x : EvalM ι (Value ι)) :
    (landed x).exec m = (x.exec m).map fun (o, m') => ((Outcome.result o).mapError .error, m') := by
  rw [landed, exec_bind, exec_outcome]
  rcases x.exec m with _ | ⟨o, m'⟩
  · rfl
  · simp

theorem exec_outcome_of {x : EvalM ι (Value ι)} {m m' : Machine ι} {o : Outcome ι}
    (h : x.exec m = some (o, m')) : (outcome x).exec m = some (.ok o, m') := by
  rw [exec_outcome, h]
  rfl

theorem exec_landed_of {x : EvalM ι (Value ι)} {m m' : Machine ι} {o : Outcome ι}
    (h : x.exec m = some (o, m')) : (landed x).exec m = some (o.result.mapError .error, m') := by
  rw [exec_landed, h]
  rfl

end EvalM

end Monkey
