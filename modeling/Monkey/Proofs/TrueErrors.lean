import Mathlib.Algebra.Group.Nat.Defs
import Mathlib.Data.List.Basic
import Monkey.Eval.Approximation
import Monkey.Proofs.LanguageEquality
import Monkey.Proofs.Uncatchable

/-!
# Monkey — every error is true to its kind

Errors are raised by operators, lookups, builtins and the checks of an application, and
each of these raises an error that is true to its kind (`Raises.trueToKind`). Whatever an
evaluation, a run or a whole program reports has been raised in its course, so it is true
to its kind, and its message tells it (`errors_are_true_to_their_kind`). Only `len` has to
be kept from strings and arrays whose length is no 64-bit integer.
-/

namespace Monkey

variable {ι : Type} {limit : Option Nat}

/-! ## Operators -/

theorem Exact.trueToKind {operation : String} {n : Int} {err : EvalError}
    (h : Exact operation n (.error err : Except EvalError (Value ι)))
    (hmem : operation ∈ ["addition", "subtraction", "multiplication", "division", "negation"]) :
    err.TrueToKind limit := by
  cases h
  exact hmem

/-- An operator before an operand fails on operands it is not for, or where the result does
not fit. -/
theorem UnaryOp.Gives.trueToKind {op : UnaryOp} {v : Value ι} {err : EvalError}
    (h : op.Gives v (.error err)) : err.TrueToKind limit := by
  cases h with
  | neg h => exact h.trueToKind (by decide)
  | negType hv => exact ⟨rfl, hv⟩

/-- A value that is not compared is of a type that is not. -/
theorem Value.incomparable_of_not_primitive {v : Value ι} (h : ¬ v.Primitive) :
    v.type.Incomparable := by
  by_contra hcompared
  exact h (primitive_iff.2 hcompared)

theorem Value.Primitive.of_type_eq {v w : Value ι} (h : v.type = w.type) (hv : v.Primitive) :
    w.Primitive := by
  unfold Primitive at hv ⊢
  rwa [← h]

/-- An operator between two operands tells apart whether their types differ. -/
theorem BinaryOp.Gives.trueToKind {op : BinaryOp} {v w : Value ι} {err : EvalError}
    (h : op.Gives v w (.error err)) : err.TrueToKind limit := by
  cases h with
  | add h | sub h | mul h | div _ h => exact h.trueToKind (by decide)
  | divZero => trivial
  | mismatch hdef htype =>
    refine ⟨htype, fun hop => ?_⟩
    by_cases hv : v.Primitive
    · exact .inr (Value.incomparable_of_not_primitive fun hw => hdef (.equality hop hv hw))
    · exact .inl (Value.incomparable_of_not_primitive hv)
  | unknown hdef htype =>
    -- two values of one type that is compared are compared
    have hequality : v.Primitive → op.isEquality = false := by
      intro hv
      have hw : w.Primitive := hv.of_type_eq htype
      exact Bool.eq_false_iff.2 fun hop => hdef (.equality hop hv hw)
    refine ⟨htype, fun hint => ?_, fun hstr => ⟨?_, ?_⟩, ?_⟩
    · cases v <;> cases hint
      cases w <;> cases htype
      exact hdef (.integers _ _ _)
    · rintro rfl
      cases v <;> cases hstr
      cases w <;> cases htype
      exact hdef (.strings _ _)
    · exact hequality (.inr (.inr (.inl hstr)))
    · rintro (hbool | hnull)
      · exact hequality (.inr (.inl hbool))
      · exact hequality (.inr (.inr (.inr hnull)))

theorem Value.IndexGives.trueToKind {v w : Value ι} {err : EvalError}
    (h : v.IndexGives w (.error err)) : err.TrueToKind limit := by
  cases h
  trivial

/-! ## Builtins -/

/-- Not a string or an array whose length is no 64-bit integer. -/
def Value.Short : Value ι → Prop
  | str s => s.length < 2 ^ 63
  | array vs => vs.length < 2 ^ 63
  | _ => True

namespace Builtin

variable {args : List (Value ι)} {v : Value ι} {err : EvalError}

theorem oneArgument_eq_ok (h : oneArgument args = .ok v) : args = [v] := by
  unfold oneArgument at h
  split at h
  · cases h
    rfl
  · cases h

theorem trueToKind_of_oneArgument (h : oneArgument args = .error err) : err.TrueToKind limit := by
  unfold oneArgument at h
  split at h
  · cases h
  · rename_i hone
    cases h
    refine ⟨fun hlen => ?_, .inl rfl⟩
    obtain ⟨v, rfl⟩ := List.length_eq_one_iff.1 hlen.symm
    exact hone v rfl

theorem trueToKind_of_elementsOf {b : Builtin} (hb : b.name ∈ ["first", "last", "rest", "push"])
    (h : b.elementsOf v = .error err) : err.TrueToKind limit := by
  unfold elementsOf at h
  split at h
  · cases h
  · rename_i hnone
    cases h
    refine ⟨hb, rfl, fun harray => ?_⟩
    cases v <;> cases harray
    cases hnone

/-- A short length is a 64-bit integer. -/
theorem length_ne_error {n : Nat} (hn : n < 2 ^ 63) :
    (length n : Except EvalError (Value ι)) ≠ .error err := by
  intro h
  have hrange : Int64.minValue.toInt ≤ (n : Int) ∧ (n : Int) ≤ Int64.maxValue.toInt := by
    rw [Int64.toInt_minValue, Int64.toInt_maxValue]
    omega
  rw [length, Value.ofInt, if_pos hrange] at h
  cases h

/-- `len` fails on what is neither a string nor an array, and on nothing that is short. -/
theorem trueToKind_of_callLen (hshort : ∀ v ∈ args, v.Short) (h : callLen args = .error err) :
    err.TrueToKind limit := by
  unfold callLen at h
  rcases hone : oneArgument args with e | v
  · rw [hone] at h
    cases h
    exact trueToKind_of_oneArgument hone
  · obtain rfl := oneArgument_eq_ok hone
    have hv := hshort v List.mem_cons_self
    cases v with
    | str s => exact absurd h (length_ne_error hv)
    | array vs => exact absurd h (length_ne_error hv)
    | _ =>
      cases h
      exact ⟨rfl, nofun, nofun⟩

/-- A builtin that takes the elements of its one argument. -/
theorem trueToKind_of_elements {b : Builtin} {f : List (Value ι) → Except EvalError (Value ι)}
    (hf : ∀ vs, f vs ≠ .error err) (hb : b.name ∈ ["first", "last", "rest", "push"])
    (h : (do f (← b.elementsOf (← oneArgument args))) = .error err) : err.TrueToKind limit := by
  rcases hone : oneArgument args with e | v
  · rw [hone] at h
    cases h
    exact trueToKind_of_oneArgument hone
  · rw [hone] at h
    rcases helements : b.elementsOf v with e | vs
    · change (b.elementsOf v >>= f) = _ at h
      rw [helements] at h
      cases h
      exact trueToKind_of_elementsOf hb helements
    · change (b.elementsOf v >>= f) = _ at h
      rw [helements] at h
      exact absurd h (hf vs)

theorem trueToKind_of_callPush (h : callPush args = .error err) : err.TrueToKind limit := by
  unfold callPush at h
  split at h
  · rename_i v w
    rcases helements : push.elementsOf v with e | vs
    · rw [helements] at h
      cases h
      exact trueToKind_of_elementsOf (by decide) helements
    · rw [helements] at h
      cases h
  · rename_i htwo
    cases h
    refine ⟨fun hlen => ?_, .inr rfl⟩
    obtain ⟨v, w, rfl⟩ := List.length_eq_two.1 hlen.symm
    exact htwo v w rfl

theorem trueToKind_of_call {b : Builtin} {printer : Printer}
    (hshort : b = .len → ∀ v ∈ args, v.Short) (h : (b.call args printer).1 = .error err) :
    err.TrueToKind limit := by
  cases b with
  | len => exact trueToKind_of_callLen (hshort rfl) h
  | first =>
    exact trueToKind_of_elements (b := .first) (f := fun vs => .ok (vs.head?.getD .null))
      (fun _ => nofun) (by decide) h
  | last =>
    exact trueToKind_of_elements (b := .last) (f := fun vs => .ok (vs.getLast?.getD .null))
      (fun _ => nofun) (by decide) h
  | rest =>
    refine trueToKind_of_elements (b := .rest) (fun vs => ?_) (by decide) h
    cases vs <;> nofun
  | push => exact trueToKind_of_callPush h
  | log => cases h

end Builtin

/-! ## Evaluations -/

/-- The values that a task applies `len` to. -/
def Task.measured : {k : Kind} → Task ι k → List (Value ι)
  | _, .apply (.builtin .len) args => args
  | _, _ => []

/-- What a task raises is true to its kind. -/
theorem Raises.trueToKind {d : Nat} {k : Kind} {t : Task ι k} {s s' : State ι} {err : EvalError}
    (h : Raises limit d t s err s') (hshort : ∀ v ∈ t.measured, v.Short) :
    err.TrueToKind limit := by
  cases h with
  | unbound _ hbuiltin => exact hbuiltin
  | unary _ hgives => exact hgives.trueToKind
  | binary _ _ hgives => exact hgives.trueToKind
  | index _ _ hgives => exact hgives.trueToKind
  | arity hlen => exact hlen
  | tooDeep _ hlimit _ => exact hlimit
  | builtin hcall =>
    refine Builtin.trueToKind_of_call ?_ hcall
    rintro rfl
    exact hshort
  | notCallable hfunction hbuiltin => exact ⟨hfunction, hbuiltin⟩

/-- In the course of a moment `len` is applied to nothing whose length is no 64-bit
integer. -/
def Moment.Measures (limit : Option Nat) (x : Moment ι) : Prop :=
  ∀ place y, x.Course limit place y → ∀ v ∈ y.task.measured, v.Short

/-- It is not, if it is not at the moment itself and in what the moment opens. -/
theorem Moment.Measures.of_opens {x : Moment ι} (hx : ∀ v ∈ x.task.measured, v.Short)
    (h : ∀ i y, x.Opens limit i y → y.Measures limit) : x.Measures limit := by
  intro place z hcourse
  cases hcourse with
  | here => exact hx
  | inside hopens hcourse => exact h _ _ hopens _ _ hcourse

/-- Where the moment itself does not apply it. -/
theorem Moment.Measures.of_parts {x : Moment ι} (hx : x.task.measured = [])
    (h : ∀ i y, x.Opens limit i y → y.Measures limit) : x.Measures limit := by
  refine .of_opens (fun v hv => ?_) h
  rw [hx] at hv
  cases hv

/-- What a moment ends with is true to its kind. -/
theorem Moment.Ends.trueToKind {x : Moment ι} {err : EvalError} {m : Machine ι}
    (h : x.Ends limit (.error (.error err)) m) (hshort : x.Measures limit) :
    err.TrueToKind limit := by
  obtain ⟨place, y, hcourse, hraises⟩ := h.exists_raises
  exact hraises.trueToKind (hshort place y hcourse)

/-- The errors that come out of an evaluation, of a run, or of a program that is run in a
root of its own. -/
inductive Reported (ι : Type) (limit : Option Nat) (err : EvalError) : Prop
  | evaluated {m m' : Machine ι} {phrase : Phrase ι} {env : FrameId} :
      m.evaluate limit phrase env = some (.error (.error err), m') →
      Moment.Measures limit ⟨phrase.task env, m⟩ → Reported ι limit err
  | run {m m' : Machine ι} {p : Program ι} {env : FrameId} :
      m.run limit p env = some (.error err, m') →
      Moment.Measures limit ⟨.program env p.statements, m⟩ → Reported ι limit err
  | program {p : Program ι} {printer printer' : Printer} :
      p.run limit printer = some (.error err, printer') →
      Moment.Measures limit ⟨.program Machine.root p.statements, Machine.fresh printer⟩ →
      Reported ι limit err

/-- A run reports what the evaluation of its program ends with. -/
theorem Machine.evaluate_of_run_eq_error {m m' : Machine ι} {p : Program ι} {env : FrameId}
    {err : EvalError} (h : m.run limit p env = some (.error err, m')) :
    m.evaluate limit (.program p) env = some (.error (.error err), m') := by
  obtain ⟨⟨o, m₁⟩, hrun, heq⟩ := Option.map_eq_some_iff.1 h
  obtain ⟨ho, rfl⟩ := Prod.mk.inj heq
  rw [hrun]
  rcases o with (e | v) | v <;> cases ho
  rfl

/-- However an error is reported, it was raised somewhere. -/
theorem Reported.trueToKind {err : EvalError} (h : Reported ι limit err) :
    err.TrueToKind limit := by
  cases h with
  | evaluated hrun hshort => exact (Machine.evaluate_eq_some_iff.1 hrun).trueToKind hshort
  | run hrun hshort =>
    have hrun := Machine.evaluate_of_run_eq_error hrun
    exact (Machine.evaluate_eq_some_iff.1 hrun).trueToKind hshort
  | program hrun hshort =>
    obtain ⟨⟨result, m⟩, hrun, heq⟩ := Option.map_eq_some_iff.1 hrun
    obtain ⟨rfl, -⟩ := Prod.mk.inj heq
    have hrun := Machine.evaluate_of_run_eq_error hrun
    exact (Machine.evaluate_eq_some_iff.1 hrun).trueToKind hshort

/-- **Every error is true to its kind.** Whatever comes out of an evaluation, a run or a
program, under whatever limit, is true to its kind; and of two such errors, also from
different programs, the messages are the same only if the errors are. -/
theorem errors_are_true_to_their_kind (limit : Option Nat) (err : EvalError)
    (h : Reported ι limit err) :
    err.TrueToKind limit ∧
    ∀ (limit' : Option Nat) (err' : EvalError), Reported ι limit' err' →
      (err.message = err'.message ↔ err = err') := by
  refine ⟨h.trueToKind, fun limit' err' h' => ⟨?_, congrArg _⟩⟩
  exact h.trueToKind.eq_of_message_eq h'.trueToKind

attribute [local semireducible] Store.lookup

/-- An operand that is the length of a string, beside one that is no integer. -/
theorem errors_are_true_to_their_kind_beside_a_length :
    let e : Expr Unit := .binary .add (.call (.ident "len") [.str "é"]) (.bool true)
    let err : EvalError := .typeMismatch .integer .add .boolean
    (∃ m, (Machine.fresh .silent).evaluate (some 0) (.expression e) Machine.root =
      some (.error (.error err), m)) ∧ err.message = "type mismatch: INTEGER + BOOLEAN" ∧
    err.TrueToKind (some 0) ∧
    ∀ (limit' : Option Nat) (err' : EvalError), Reported Unit limit' err' →
      (err.message = err'.message ↔ err = err') := by
  intro e err
  let m : Machine Unit := Machine.fresh .silent
  have hrun : (m.evaluate (some 0) (.expression e) Machine.root).map (·.1) =
      some (.error (.error err)) :=
    Machine.map_evaluate_of_nested 1 rfl
  obtain ⟨⟨o, m'⟩, hrun, rfl⟩ := Option.map_eq_some_iff.1 hrun
  have hlen : Moment.Ends (some 0) ⟨.expression Machine.root (.ident "len"), m⟩
      (.ok (.builtin .len)) m := rfl
  have hargs : Moment.Ends (some 0) ⟨.expressions Machine.root [.str "é"], m⟩
      (.ok [.str "é"]) m := rfl
  -- nothing but the one application is of `len`, and that is of the one string
  have hmeasures : Moment.Measures (some 0) ⟨.expression Machine.root
      (.binary .add (.call (.ident "len") [.str "é"]) (.bool true)), m⟩ := by
    refine .of_parts rfl fun _ _ hopens => ?_
    cases hopens with
    | binaryRight _ => exact .of_parts rfl fun _ _ h => by cases h
    | binaryLeft =>
      refine .of_parts rfl fun _ _ hopens => ?_
      cases hopens with
      | callee => exact .of_parts rfl fun _ _ h => by cases h
      | arguments _ =>
        refine .of_parts rfl fun _ _ hopens => ?_
        cases hopens <;> exact .of_parts rfl fun _ _ h => by cases h
      | application hf hes =>
        obtain ⟨heq, rfl⟩ := hf.unique hlen
        cases heq
        obtain ⟨heq, rfl⟩ := hes.unique hargs
        cases heq
        refine .of_opens (List.forall_mem_singleton.2 ?_) fun _ _ h => by cases h
        change "é".length < 2 ^ 63
        decide
  exact ⟨⟨m', hrun⟩, rfl, errors_are_true_to_their_kind _ _ (.evaluated hrun hmeasures)⟩

end Monkey
