import Mathlib.Tactic.ByContra
import Monkey.Proofs.ErrorMessages
import Monkey.Proofs.OperatorRules

/-!
# Monkey — the language's own equality

`==` and `!=` are decided in two places: integers among their operators, everything else
by `Value.primitiveEq?`. The two agree, and together they are the equality of values on
the types that are compared (`Value.primitiveEq?_eq_some_iff`). Elsewhere both operators
fail, and the error does not depend on the order of the operands but for the order in
which it names their types.
-/

namespace Monkey

variable {ι : Type}

/-! ## Errors about two operands -/

namespace EvalError

/-- The error with another operator between the types. -/
def withOperator (op : BinaryOp) : EvalError → EvalError
  | unknownBinary left _ right => unknownBinary left op right
  | typeMismatch left _ right => typeMismatch left op right
  | e => e

/-- The error with the two types exchanged. -/
def exchanged : EvalError → EvalError
  | unknownBinary left op right => unknownBinary right op left
  | typeMismatch left op right => typeMismatch right op left
  | e => e

end EvalError

namespace BinaryOp

theorem withOperator_undefined (op op' : BinaryOp) (v w : Value ι) :
    (op.undefined v w).withOperator op' = op'.undefined v w := by
  unfold undefined
  split
  · rfl
  · rfl

theorem exchanged_undefined (op : BinaryOp) (v w : Value ι) :
    (op.undefined v w).exchanged = op.undefined w v := by
  unfold undefined
  by_cases htype : v.type = w.type
  · rw [if_pos htype, if_pos htype.symm]
    rfl
  · rw [if_neg htype, if_neg (Ne.symm htype)]
    rfl

end BinaryOp

/-! ## Values that are compared -/

namespace Value

variable {v w : Value ι}

theorem primitive_iff : v.Primitive ↔ ¬ v.type.Incomparable := by
  unfold Primitive ValueType.Incomparable
  cases v <;> simp [type]

/-- Two values of types that are compared are compared. -/
theorem exists_primitiveEq?_eq (hv : v.Primitive) (hw : w.Primitive) :
    ∃ same, v.primitiveEq? w = some same ∧ (same = true ↔ v = w) := by
  by_cases heq : v = w
  · subst heq
    exact ⟨true, primitiveEq?_self hv, fun _ => rfl, fun _ => rfl⟩
  · exact ⟨false, primitiveEq?_of_ne hv hw heq, nofun, fun h => absurd h heq⟩

/-- Values are compared where both are of a type that is, and they are equal where they are
one value. -/
theorem primitiveEq?_eq_some_iff {same : Bool} :
    v.primitiveEq? w = some same ↔ (v.Primitive ∧ w.Primitive) ∧ (same = true ↔ v = w) := by
  by_cases hprimitive : v.Primitive ∧ w.Primitive
  · obtain ⟨same', hsame', hiff⟩ := exists_primitiveEq?_eq hprimitive.1 hprimitive.2
    rw [hsame', Option.some.injEq]
    constructor
    · rintro rfl
      exact ⟨hprimitive, hiff⟩
    · exact fun h => Bool.eq_iff_iff.2 (hiff.trans h.2.symm)
  · rw [primitiveEq?_of_not_primitive hprimitive]
    exact ⟨nofun, fun h => absurd h.1 hprimitive⟩

end Value

/-! ## The two operators -/

namespace BinaryOp

variable {op : BinaryOp} {v w : Value ι}

/-- Where a side is of a type that is not compared, `==` and `!=` fail. -/
theorem apply_of_not_primitive (hop : op.isEquality = true) (h : ¬ (v.Primitive ∧ w.Primitive)) :
    op.apply v w = .error (op.undefined v w) := by
  refine apply_of_not_defined fun hdef => h ?_
  cases hdef with
  | integers => exact ⟨.inl rfl, .inl rfl⟩
  | strings => cases hop
  | equality _ hv hw => exact ⟨hv, hw⟩

/-- `==` is the comparison of values, also on the integers. -/
theorem eq_apply_eq_ok_iff {same : Bool} :
    eq.apply v w = .ok (.bool same) ↔ v.primitiveEq? w = some same := by
  by_cases h : v.Primitive ∧ w.Primitive
  · obtain ⟨same', hsame', -⟩ := Value.exists_primitiveEq?_eq h.1 h.2
    rw [apply_equality rfl hsame', hsame', if_pos rfl, Except.ok.injEq, Value.bool.injEq,
      Option.some.injEq]
  · rw [apply_of_not_primitive rfl h, Value.primitiveEq?_of_not_primitive h]
    exact ⟨nofun, nofun⟩

theorem eq_apply_eq_true_iff :
    eq.apply v w = .ok (.bool true) ↔ v.Primitive ∧ v = w := by
  rw [eq_apply_eq_ok_iff, Value.primitiveEq?_eq_some_iff]
  constructor
  · exact fun ⟨hprimitive, hiff⟩ => ⟨hprimitive.1, hiff.1 rfl⟩
  · rintro ⟨hv, rfl⟩
    exact ⟨⟨hv, hv⟩, fun _ => rfl, fun _ => rfl⟩

/-- What `==` and `!=` give together: opposite truth values, or one error. -/
theorem eq_and_ne (v w : Value ι) :
    (∃ same, eq.apply v w = .ok (.bool same) ∧ ne.apply v w = .ok (.bool !same)) ∨
    ∃ err, eq.apply v w = .error err ∧ ne.apply v w = .error (err.withOperator .ne) := by
  by_cases h : v.Primitive ∧ w.Primitive
  · obtain ⟨same, hsame, -⟩ := Value.exists_primitiveEq?_eq h.1 h.2
    exact .inl ⟨same, apply_equality rfl hsame, apply_equality rfl hsame⟩
  · refine .inr ⟨_, apply_of_not_primitive rfl h, ?_⟩
    rw [withOperator_undefined]
    exact apply_of_not_primitive rfl h

/-- `==` and `!=` give something exactly on two values of types that are compared. -/
theorem exists_apply_eq_ok_iff (hop : op.isEquality = true) :
    (∃ u, op.apply v w = .ok u) ↔ ¬ v.type.Incomparable ∧ ¬ w.type.Incomparable := by
  rw [← Value.primitive_iff, ← Value.primitive_iff]
  constructor
  · rintro ⟨u, hu⟩
    by_contra h
    cases (apply_of_not_primitive hop h).symm.trans hu
  · rintro ⟨hv, hw⟩
    obtain ⟨same, hsame, -⟩ := Value.exists_primitiveEq?_eq hv hw
    exact ⟨_, apply_equality hop hsame⟩

/-- The operands of `==` can be exchanged; an error then names their types the other way
round. -/
theorem eq_apply_comm (v w : Value ι) :
    eq.apply w v = (eq.apply v w).mapError EvalError.exchanged := by
  by_cases h : v.Primitive ∧ w.Primitive
  · obtain ⟨same, hsame, hiff⟩ := Value.exists_primitiveEq?_eq h.1 h.2
    have hswapped : w.primitiveEq? v = some same :=
      Value.primitiveEq?_eq_some_iff.2 ⟨h.symm, hiff.trans eq_comm⟩
    rw [apply_equality rfl hsame, apply_equality rfl hswapped]
    rfl
  · rw [apply_of_not_primitive rfl h, apply_of_not_primitive rfl (h ∘ And.symm), Except.mapError,
      exchanged_undefined]

/-- An error of `==` and `!=` says whether the types differ. -/
theorem apply_eq_error (hop : op.isEquality = true) {err : EvalError}
    (h : op.apply v w = .error err) :
    (v.type = w.type ∧ err = .unknownBinary v.type op w.type) ∨
    (v.type ≠ w.type ∧ err = .typeMismatch v.type op w.type) := by
  have hundefined : err = op.undefined v w := by
    by_cases hprimitive : v.Primitive ∧ w.Primitive
    · obtain ⟨same, hsame, -⟩ := Value.exists_primitiveEq?_eq hprimitive.1 hprimitive.2
      cases (apply_equality hop hsame).symm.trans h
    · exact Except.error.inj (h.symm.trans (apply_of_not_primitive hop hprimitive))
  rw [hundefined, undefined]
  split
  · next htype => exact .inl ⟨htype, rfl⟩
  · next htype => exact .inr ⟨htype, rfl⟩

end BinaryOp

/-- **The language's equality is coherent.** `==` and `!=` give opposite truth values, or
the same error but for the operator; they give something exactly where neither side is an
array, a function or a builtin; `==` is indifferent to the order of its operands, but that
an error names their types in their order; it is the comparison of `Value.primitiveEq?`,
integers included, and it is reflexive, transitive and false across types; and an error is
an unknown operator exactly where the two types are the same. -/
theorem language_equality_is_coherent (l r s : Value ι) :
    ((∃ same, BinaryOp.eq.apply l r = .ok (.bool same) ∧
        BinaryOp.ne.apply l r = .ok (.bool !same)) ∨
      ∃ err, BinaryOp.eq.apply l r = .error err ∧
        BinaryOp.ne.apply l r = .error (err.withOperator .ne)) ∧
    (∀ op : BinaryOp, op.isEquality = true →
      ((∃ u, op.apply l r = .ok u) ↔ ¬ l.type.Incomparable ∧ ¬ r.type.Incomparable)) ∧
    BinaryOp.eq.apply r l = (BinaryOp.eq.apply l r).mapError EvalError.exchanged ∧
    (∀ same, BinaryOp.eq.apply l r = .ok (.bool same) ↔ l.primitiveEq? r = some same) ∧
    (¬ l.type.Incomparable → BinaryOp.eq.apply l l = .ok (.bool true)) ∧
    (BinaryOp.eq.apply l r = .ok (.bool true) → BinaryOp.eq.apply r s = .ok (.bool true) →
      BinaryOp.eq.apply l s = .ok (.bool true)) ∧
    (l.type ≠ r.type → ∀ u, BinaryOp.eq.apply l r = .ok u → u = .bool false) ∧
    (∀ op : BinaryOp, op.isEquality = true → ∀ err, op.apply l r = .error err →
      (l.type = r.type ∧ err = .unknownBinary l.type op r.type) ∨
      (l.type ≠ r.type ∧ err = .typeMismatch l.type op r.type)) := by
  refine ⟨BinaryOp.eq_and_ne l r, fun op hop => BinaryOp.exists_apply_eq_ok_iff hop,
    BinaryOp.eq_apply_comm l r, fun _ => BinaryOp.eq_apply_eq_ok_iff, ?refl, ?trans, ?types,
    fun op hop err h => BinaryOp.apply_eq_error hop h⟩
  case refl =>
    intro hl
    exact BinaryOp.eq_apply_eq_true_iff.2 ⟨Value.primitive_iff.2 hl, rfl⟩
  case trans =>
    intro hlr hrs
    obtain ⟨-, rfl⟩ := BinaryOp.eq_apply_eq_true_iff.1 hlr
    exact hrs
  case types =>
    intro htype u hu
    rcases BinaryOp.eq_and_ne l r with ⟨same, hsame, -⟩ | ⟨err, herr, -⟩
    · cases hsame.symm.trans hu
      obtain ⟨-, hiff⟩ := Value.primitiveEq?_eq_some_iff.1 (BinaryOp.eq_apply_eq_ok_iff.1 hsame)
      rw [Bool.eq_false_iff.2 fun htrue => htype (congrArg Value.type (hiff.1 htrue))]
    · cases herr.symm.trans hu

/-- Equal strings, one after the other; values of two types; and an array beside null, in
both orders. -/
theorem language_equality_is_coherent_across_types :
    let one : Value Unit := .str "a"
    BinaryOp.eq.apply one one = .ok (.bool true) ∧
    BinaryOp.eq.apply (.int 0 : Value Unit) (.bool false) = .ok (.bool false) ∧
    BinaryOp.eq.apply (.array [one]) .null = .error (.typeMismatch .array .eq .null) ∧
    BinaryOp.eq.apply .null (.array [one]) = .error (.typeMismatch .null .eq .array) := by
  intro one
  obtain ⟨-, -, -, -, hrefl, htrans, -⟩ := language_equality_is_coherent one one one
  obtain ⟨-, hsuccess, -, -, -, -, htypes, -⟩ :=
    language_equality_is_coherent (.int 0 : Value Unit) (.bool false) one
  obtain ⟨-, -, hcomm, -, -, -, -, herrors⟩ :=
    language_equality_is_coherent (.array [one]) .null one
  have hone : BinaryOp.eq.apply one one = .ok (.bool true) :=
    hrefl (Value.primitive_iff.1 (.inr (.inr (.inl rfl))))
  refine ⟨htrans hone hone, ?_, ?_, ?_⟩
  · obtain ⟨u, hu⟩ := (hsuccess .eq rfl).2
      ⟨Value.primitive_iff.1 (.inl rfl), Value.primitive_iff.1 (.inr (.inl rfl))⟩
    rw [hu, htypes nofun u hu]
  · rcases herrors .eq rfl _ rfl with ⟨hsame, -⟩ | ⟨-, herr⟩
    · cases hsame
    · exact congrArg _ herr
  · rw [hcomm]
    rfl

end Monkey
