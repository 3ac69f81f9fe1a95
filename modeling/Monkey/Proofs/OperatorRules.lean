import Monkey.Proofs.Rules

/-!
# Monkey — the side conditions of the rules, computed

What the rules say of operators, of indexing, of truth and of names is what the
evaluator computes: `UnaryOp.gives_iff`, `BinaryOp.gives_iff`,
`Value.indexGives_iff`, `Value.truthy_iff` and `Store.sees_iff`.
-/

namespace Monkey

variable {ι : Type}

/-! ## Truth and names -/

theorem Value.truthy_iff (v : Value ι) : v.truthy = true ↔ ¬ v.Falsy := by
  unfold Value.Falsy
  cases v with
  | bool b => cases b <;> simp [Value.truthy]
  | _ => simp [Value.truthy]

theorem Builtin.ofName?_eq_some_iff {x : String} {b : Builtin} :
    Builtin.ofName? x = some b ↔ b.name = x := by
  constructor
  · intro h
    have hb := List.find?_some h
    exact eq_of_beq hb
  · rintro rfl
    exact Builtin.ofName?_name b

/-- Looking a name up gives what the name sees. -/
theorem Store.sees_iff {s : Store ι} {x : String} {v : Value ι} {id : FrameId} :
    s.Sees x v id ↔ s.lookup id x = some v := by
  constructor
  · intro h
    induction h with
    | here hf hget => rw [lookup_of_frame hf, hget, Option.some_or]
    | outward hf hget hparent _ ih =>
      rw [lookup_of_frame hf, hget, hparent, Option.none_or, Option.bind_some, ih]
  · intro h
    induction id using Nat.strongRecOn with
    | ind id ih =>
      cases hf : s.frames[id]? with
      | none => rw [lookup_of_not_frame hf] at h; cases h
      | some f =>
        rw [lookup_of_frame hf] at h
        cases hget : f.get? x with
        | some w =>
          rw [hget, Option.some_or] at h
          cases h
          exact .here hf hget
        | none =>
          rw [hget, Option.none_or] at h
          obtain ⟨p, hparent, h⟩ := Option.bind_eq_some_iff.1 h
          exact .outward hf hget hparent (ih p (parent_lt_of_frame hf hparent) h)

/-! ## Integers -/

/-- A number in range is the number of the 64-bit integer made of it. -/
theorem toInt_ofInt_of_mem {n : Int} (hmin : Int64.minValue.toInt ≤ n)
    (hmax : n ≤ Int64.maxValue.toInt) : (Int64.ofInt n).toInt = n := by
  rw [← Int64.ofIntLE_eq_ofInt hmin hmax, Int64.toInt_ofIntLE]

/-- A 64-bit integer is found for a number exactly where the number is in
range. -/
theorem exact_iff {operation : String} {n : Int} {r : Except EvalError (Value ι)} :
    Exact operation n r ↔ r = Value.ofInt operation n := by
  constructor
  · rintro (⟨a, rfl⟩ | h)
    · rw [Value.ofInt, if_pos ⟨a.minValue_le_toInt, a.toInt_le⟩, Int64.ofInt_toInt]
    · rw [Value.ofInt, if_neg]
      rintro ⟨hmin, hmax⟩
      exact h (Int64.ofInt n) (toInt_ofInt_of_mem hmin hmax)
  · rintro rfl
    unfold Value.ofInt
    split
    · rename_i hrange
      exact .fits _ (toInt_ofInt_of_mem hrange.1 hrange.2)
    · rename_i hrange
      refine .overflow fun a ha => hrange ?_
      rw [← ha]
      exact ⟨a.minValue_le_toInt, a.toInt_le⟩

theorem UnaryOp.gives_iff {op : UnaryOp} {v : Value ι} {r : Except EvalError (Value ι)} :
    op.Gives v r ↔ r = op.apply v := by
  constructor
  · intro h
    cases h with
    | notFalsy hv => rcases hv with rfl | rfl <;> rfl
    | notTruthy hv => rw [UnaryOp.apply, (Value.truthy_iff v).2 hv]; rfl
    | neg h => exact exact_iff.1 h
    | negType hv =>
      cases v with
      | int a => exact absurd rfl hv
      | _ => rfl
  · rintro rfl
    cases op with
    | not =>
      by_cases hv : v.Falsy
      · rcases hv with rfl | rfl
        · exact .notFalsy (.inl rfl)
        · exact .notFalsy (.inr rfl)
      · rw [UnaryOp.apply, (Value.truthy_iff v).2 hv]
        exact .notTruthy hv
    | neg =>
      cases v with
      | int a => exact .neg (exact_iff.2 rfl)
      | _ => exact .negType (by simp [Value.type])

/-! ## Binary operators -/

namespace Value

theorem primitiveEq?_self {v : Value ι} (hv : v.Primitive) : v.primitiveEq? v = some true := by
  cases v <;> simp_all [Primitive, type, primitiveEq?]

theorem primitiveEq?_of_ne {v w : Value ι} (hv : v.Primitive) (hw : w.Primitive) (h : v ≠ w) :
    v.primitiveEq? w = some false := by
  cases v <;> cases w <;> simp_all [Primitive, type, primitiveEq?]

theorem primitiveEq?_of_not_primitive {v w : Value ι} (h : ¬ (v.Primitive ∧ w.Primitive)) :
    v.primitiveEq? w = none := by
  cases v <;> cases w <;> simp_all [Primitive, type, primitiveEq?]

end Value

namespace BinaryOp

variable {op : BinaryOp} {v w : Value ι}

/-- On operands that are neither two integers nor two strings to be joined, an
operator is at most an equality. -/
theorem apply_eq_applyEquality (hint : ∀ a b, ¬ (v = .int a ∧ w = .int b))
    (hstr : ∀ s t, ¬ (op = .add ∧ v = .str s ∧ w = .str t)) :
    op.apply v w = op.applyEquality v w := by
  unfold apply
  split
  · exact absurd ⟨rfl, rfl⟩ (hint _ _)
  · exact absurd ⟨rfl, rfl, rfl⟩ (hstr _ _)
  · rfl

/-- Where an operator is not defined, the error tells whether the types differ. -/
theorem apply_of_not_defined (h : ¬ op.Defined v w) : op.apply v w = .error (op.undefined v w) := by
  rw [apply_eq_applyEquality]
  · unfold applyEquality
    have hnone : op.isEquality = true → v.primitiveEq? w = none := fun hop =>
      Value.primitiveEq?_of_not_primitive fun ⟨hv, hw⟩ => h (.equality hop hv hw)
    split
    · rename_i hsome
      rw [hnone rfl] at hsome
      cases hsome
    · rename_i hsome
      rw [hnone rfl] at hsome
      cases hsome
    · rfl
  · rintro a b ⟨rfl, rfl⟩
    exact h (.integers op a b)
  · rintro s t ⟨rfl, rfl, rfl⟩
    exact h (.strings s t)

/-- Two values that can be compared are compared alike, integers or not. -/
theorem apply_equality (hop : op.isEquality = true) {same : Bool}
    (h : v.primitiveEq? w = some same) :
    op.apply v w = .ok (.bool (if op = .eq then same else !same)) := by
  cases v with
  | int a =>
    cases w with
    | int b =>
      simp only [Value.primitiveEq?, Option.some.injEq] at h
      subst h
      cases op <;> simp_all [isEquality, apply, applyInt, bne]
    | _ => cases op <;> simp_all [isEquality, apply, applyEquality]
  | _ => cases op <;> simp_all [isEquality, apply, applyEquality]

/-- The rules of equality cover all values that can be compared. -/
theorem gives_of_equality (hop : op.isEquality = true) (hv : v.Primitive) (hw : w.Primitive) :
    op.Gives v w (op.apply v w) := by
  by_cases hne : v = w
  · subst hne
    rw [apply_equality hop (Value.primitiveEq?_self hv)]
    cases op with
    | eq => exact .eqSame hv
    | ne => exact .neSame hv
    | _ => cases hop
  · rw [apply_equality hop (Value.primitiveEq?_of_ne hv hw hne)]
    cases op with
    | eq => exact .eqOther hv hw hne
    | ne => exact .neOther hv hw hne
    | _ => cases hop

/-- The rules of the integer operators cover all pairs of integers. -/
theorem gives_integers (op : BinaryOp) (a b : Int64) :
    op.Gives (.int a : Value ι) (.int b) (op.apply (.int a) (.int b)) := by
  cases op with
  | add => exact .add (exact_iff.2 rfl)
  | sub => exact .sub (exact_iff.2 rfl)
  | mul => exact .mul (exact_iff.2 rfl)
  | div =>
    by_cases hb : b = 0
    · subst hb
      exact .divZero
    · have hne : b.toInt ≠ 0 := fun h => hb (Int64.toInt_inj.1 h)
      exact .div hne (exact_iff.2 (if_neg hb))
  | lt =>
    rw [apply, applyInt, decide_eq_decide.2 Int64.lt_iff_toInt_lt]
    exact .lt
  | gt =>
    rw [apply, applyInt, decide_eq_decide.2 Int64.lt_iff_toInt_lt]
    exact .gt
  | eq => exact gives_of_equality rfl (.inl rfl) (.inl rfl)
  | ne => exact gives_of_equality rfl (.inl rfl) (.inl rfl)

end BinaryOp

theorem BinaryOp.gives_iff {op : BinaryOp} {v w : Value ι} {r : Except EvalError (Value ι)} :
    op.Gives v w r ↔ r = op.apply v w := by
  constructor
  · intro h
    cases h with
    | add h => exact exact_iff.1 h
    | sub h => exact exact_iff.1 h
    | mul h => exact exact_iff.1 h
    | divZero => rfl
    | @div a b _ hb h =>
      have hne : b ≠ 0 := by
        rintro rfl
        exact hb rfl
      rw [exact_iff.1 h]
      exact (if_neg hne).symm
    | lt => rw [apply, applyInt, decide_eq_decide.2 Int64.lt_iff_toInt_lt]
    | gt => rw [apply, applyInt, decide_eq_decide.2 Int64.lt_iff_toInt_lt]
    | join => rfl
    | eqSame hv => rw [apply_equality rfl (Value.primitiveEq?_self hv)]; rfl
    | eqOther hv hw hne => rw [apply_equality rfl (Value.primitiveEq?_of_ne hv hw hne)]; rfl
    | neSame hv => rw [apply_equality rfl (Value.primitiveEq?_self hv)]; rfl
    | neOther hv hw hne => rw [apply_equality rfl (Value.primitiveEq?_of_ne hv hw hne)]; rfl
    | mismatch hdef htype => rw [apply_of_not_defined hdef, undefined, if_neg htype]
    | unknown hdef htype => rw [apply_of_not_defined hdef, undefined, if_pos htype]
  · rintro rfl
    by_cases hdef : op.Defined v w
    · cases hdef with
      | integers op a b => exact gives_integers op a b
      | strings s t => exact .join
      | equality hop hv hw => exact gives_of_equality hop hv hw
    · rw [apply_of_not_defined hdef, undefined]
      split
      · rename_i htype
        exact .unknown hdef htype
      · rename_i htype
        exact .mismatch hdef htype

theorem Value.indexGives_iff {v w : Value ι} {r : Except EvalError (Value ι)} :
    v.IndexGives w r ↔ r = v.index w := by
  constructor
  · intro h
    cases h with
    | @element vs i v n hi hv =>
      have hpos : (0 : Int) ≤ i.toInt := by omega
      rw [Value.index, if_pos hpos, hi, Int.toNat_natCast, hv]
      rfl
    | @outside vs i h =>
      rw [Value.index]
      split
      · rename_i hpos
        have hlen : vs.length ≤ i.toInt.toNat := by omega
        rw [List.getElem?_eq_none hlen]
        rfl
      · rfl
    | notIndexable h =>
      cases v with
      | array vs =>
        cases w with
        | int i => exact absurd rfl (h.resolve_left fun h => h rfl)
        | _ => rfl
      | _ => rfl
  · rintro rfl
    cases v with
    | array vs =>
      cases w with
      | int i =>
        rw [Value.index]
        split
        · rename_i hpos
          cases hget : vs[i.toInt.toNat]? with
          | some v => exact .element i.toInt.toNat (Int.toNat_of_nonneg hpos).symm hget
          | none =>
            have hlen := List.getElem?_eq_none_iff.1 hget
            exact .outside (.inr (by omega))
        · rename_i hneg
          exact .outside (.inl (Int.not_le.1 hneg))
      | _ => exact .notIndexable (.inr (by simp [Value.type]))
    | _ => exact .notIndexable (.inl (by simp [Value.type]))

end Monkey
