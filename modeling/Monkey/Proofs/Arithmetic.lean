import Mathlib.Algebra.Group.Int.Defs
import Monkey.Proofs.OperatorRules

/-!
# Monkey — integer operators are exact, or refuse

Integers have 64 bits, and no operator wraps around: where the exact result is an integer
of 64 bits it is the result, and elsewhere the operator fails with the name of the
operation (`ExactOrOverflow`). Division is told by its remainder and not by a rounding
rule (`TruncatedQuotient`), of which there is one quotient for every divisor but zero
(`truncatedQuotient_iff`). What succeeds then obeys the laws of the integers.
-/

namespace Monkey

variable {ι : Type}

/-! ## Sixty-four bits -/

/-- The number is one that 64 bits hold with a sign. -/
def FitsInt64 (n : Int) : Prop := -2 ^ 63 ≤ n ∧ n < 2 ^ 63

theorem fitsInt64_toInt (a : Int64) : FitsInt64 a.toInt := by
  have hmin := a.minValue_le_toInt
  have hmax := a.toInt_le
  rw [Int64.toInt_minValue] at hmin
  rw [Int64.toInt_maxValue] at hmax
  exact ⟨hmin, by omega⟩

/-- A number that fits is the number of a 64-bit integer. -/
theorem FitsInt64.exists_toInt {n : Int} (h : FitsInt64 n) : ∃ a : Int64, a.toInt = n := by
  obtain ⟨hmin, hmax⟩ := h
  refine ⟨Int64.ofInt n, toInt_ofInt_of_mem ?_ ?_⟩
  · rw [Int64.toInt_minValue]
    exact hmin
  · rw [Int64.toInt_maxValue]
    omega

/-- The result of an integer operation is its mathematical value `n` where 64 bits hold
it, and elsewhere an overflow that names the operation. -/
structure ExactOrOverflow (operation : String) (n : Int) (r : Except EvalError (Value ι)) :
    Prop where
  exact : FitsInt64 n → ∃ c : Int64, c.toInt = n ∧ r = .ok (.int c)
  overflow : ¬ FitsInt64 n → r = .error (.overflow operation)

section Results

variable {operation : String} {n : Int} {r : Except EvalError (Value ι)} {v : Value ι}

theorem Exact.exactOrOverflow (h : Exact operation n r) : ExactOrOverflow operation n r where
  exact hfits := by
    cases h with
    | fits a ha => exact ⟨a, ha, rfl⟩
    | overflow hnone =>
      obtain ⟨a, ha⟩ := hfits.exists_toInt
      exact absurd ha (hnone a)
  overflow hfits := by
    cases h with
    | fits a ha => exact absurd (ha ▸ fitsInt64_toInt a) hfits
    | overflow _ => rfl

/-- Two operations of one name and one mathematical value have one result. -/
theorem ExactOrOverflow.unique {r' : Except EvalError (Value ι)}
    (h : ExactOrOverflow operation n r) (h' : ExactOrOverflow operation n r') : r = r' := by
  by_cases hfits : FitsInt64 n
  · obtain ⟨a, ha, rfl⟩ := h.exact hfits
    obtain ⟨b, hb, rfl⟩ := h'.exact hfits
    rw [Int64.toInt_inj.1 (ha.trans hb.symm)]
  · rw [h.overflow hfits, h'.overflow hfits]

/-- An operation succeeds with the integer of its mathematical value, and with nothing
else. -/
theorem ExactOrOverflow.eq_ok_iff (h : ExactOrOverflow operation n r) :
    r = .ok v ↔ ∃ c : Int64, c.toInt = n ∧ v = .int c := by
  constructor
  · rintro rfl
    by_cases hfits : FitsInt64 n
    · obtain ⟨c, hc, heq⟩ := h.exact hfits
      exact ⟨c, hc, Except.ok.inj heq⟩
    · cases h.overflow hfits
  · rintro ⟨c, hc, rfl⟩
    obtain ⟨d, hd, rfl⟩ := h.exact (hc ▸ fitsInt64_toInt c)
    rw [Int64.toInt_inj.1 (hd.trans hc.symm)]

end Results

/-! ## Division -/

/-- The quotient of `a` by `b`, truncated toward zero, is `q`: what is left of `a` is
smaller than the divisor, and it is nothing or has the sign of `a`. -/
def TruncatedQuotient (a b q : Int) : Prop :=
  ∃ r, a = q * b + r ∧ r.natAbs < b.natAbs ∧ (r = 0 ∨ r.sign = a.sign)

/-- By zero there is no quotient. -/
theorem TruncatedQuotient.ne_zero {a b q : Int} (h : TruncatedQuotient a b q) : b ≠ 0 := by
  obtain ⟨r, -, hlt, -⟩ := h
  omega

/-- By all else there is one. -/
theorem truncatedQuotient_iff {a b q : Int} (hb : b ≠ 0) :
    TruncatedQuotient a b q ↔ a.tdiv b = q := by
  constructor
  · rintro ⟨r, heq, hlt, hsign⟩
    have hsum : r + b * q = a := by rw [heq, Int.add_comm, Int.mul_comm]
    rcases Int.le_total 0 a with ha | ha
    · have hr : 0 ≤ r := by
        rcases hsign with rfl | hsign
        · exact Int.le_refl 0
        · exact Int.sign_nonneg_iff.1 (hsign ▸ Int.sign_nonneg_iff.2 ha)
      exact ((Int.tdiv_tmod_unique ha hb).2 ⟨hsum, hr, by omega⟩).1
    · have hr : r ≤ 0 := by
        rcases hsign with rfl | hsign
        · exact Int.le_refl 0
        · exact Int.sign_nonpos_iff.1 (hsign ▸ Int.sign_nonpos_iff.2 ha)
      exact ((Int.tdiv_tmod_unique' ha hb).2 ⟨hsum, by omega, hr⟩).1
  · rintro rfl
    refine ⟨a.tmod b, (Int.tdiv_mul_add_tmod a b).symm, ?_, ?_⟩
    · rw [Int.natAbs_tmod]
      exact Nat.mod_lt _ (Int.natAbs_pos.2 hb)
    · by_cases hdvd : b ∣ a
      · exact .inl (Int.tmod_eq_zero_of_dvd hdvd)
      · exact .inr ((Int.sign_tmod a b).trans (if_neg hdvd))

/-- The result of dividing `a` by `b` is the quotient truncated toward zero, but by zero
there is none, and one that 64 bits do not hold is an overflow. -/
structure QuotientOrError (a b : Int64) (r : Except EvalError (Value ι)) : Prop where
  zero : r = .error .divisionByZero ↔ b = 0
  overflow : r = .error (.overflow "division") ↔
    ∃ q, TruncatedQuotient a.toInt b.toInt q ∧ ¬ FitsInt64 q
  exact : b ≠ 0 → r ≠ .error (.overflow "division") →
    ∃ c : Int64, TruncatedQuotient a.toInt b.toInt c.toInt ∧ r = .ok (.int c)

theorem BinaryOp.apply_div (a b : Int64) :
    QuotientOrError a b (div.apply (.int a : Value ι) (.int b)) := by
  by_cases hb : b = 0
  · subst hb
    refine ⟨⟨fun _ => rfl, fun _ => rfl⟩, ⟨nofun, ?_⟩, fun h => absurd rfl h⟩
    rintro ⟨q, hq, -⟩
    exact absurd rfl hq.ne_zero
  · have hne : b.toInt ≠ 0 := fun h => hb (Int64.toInt_inj.1 h)
    have happly : ExactOrOverflow "division" (a.toInt.tdiv b.toInt)
        (div.apply (.int a : Value ι) (.int b)) := (exact_iff.2 (if_neg hb)).exactOrOverflow
    -- the quotient is the one that the operator computes
    have hquotient : TruncatedQuotient a.toInt b.toInt (a.toInt.tdiv b.toInt) :=
      (truncatedQuotient_iff hne).2 rfl
    by_cases hfits : FitsInt64 (a.toInt.tdiv b.toInt)
    · obtain ⟨c, hc, heq⟩ := happly.exact hfits
      rw [heq]
      refine ⟨⟨nofun, fun h => absurd h hb⟩, ⟨nofun, ?_⟩, fun _ _ => ⟨c, hc ▸ hquotient, rfl⟩⟩
      rintro ⟨q, hq, hnot⟩
      rw [← (truncatedQuotient_iff hne).1 hq] at hnot
      exact absurd hfits hnot
    · rw [happly.overflow hfits]
      exact ⟨⟨nofun, fun h => absurd h hb⟩, ⟨fun _ => ⟨_, hquotient, hfits⟩, fun _ => rfl⟩,
        fun _ h => absurd rfl h⟩

/-! ## The operators -/

/-- **Integer operators compute exactly or refuse.** Sums, differences, products and
negatives are exact or overflow by name; a quotient is truncated toward zero, unless the
divisor is zero or the quotient does not fit; and comparisons are those of the integers. So
sums and products do not depend on the order, a difference is a sum with the negative
where there is one, and what was added can be taken off again. -/
theorem integer_operators_are_exact (a b : Int64) :
    let l : Value ι := .int a
    let r : Value ι := .int b
    ExactOrOverflow "addition" (a.toInt + b.toInt) (BinaryOp.add.apply l r) ∧
    ExactOrOverflow "subtraction" (a.toInt - b.toInt) (BinaryOp.sub.apply l r) ∧
    ExactOrOverflow "multiplication" (a.toInt * b.toInt) (BinaryOp.mul.apply l r) ∧
    ExactOrOverflow "negation" (-a.toInt) (UnaryOp.neg.apply l) ∧
    QuotientOrError a b (BinaryOp.div.apply l r) ∧
    BinaryOp.lt.apply l r = .ok (.bool (decide (a.toInt < b.toInt))) ∧
    BinaryOp.gt.apply l r = .ok (.bool (decide (a.toInt > b.toInt))) ∧
    BinaryOp.eq.apply l r = .ok (.bool (decide (a.toInt = b.toInt))) ∧
    BinaryOp.ne.apply l r = .ok (.bool (decide (a.toInt ≠ b.toInt))) ∧
    BinaryOp.add.apply l r = BinaryOp.add.apply r l ∧
    BinaryOp.mul.apply l r = BinaryOp.mul.apply r l ∧
    (∀ negative, UnaryOp.neg.apply r = .ok negative →
      ∀ v, BinaryOp.sub.apply l r = .ok v ↔ BinaryOp.add.apply l negative = .ok v) ∧
    (∀ sum, BinaryOp.add.apply l r = .ok sum → BinaryOp.sub.apply sum r = .ok l) := by
  have hadd : ∀ a b : Int64, ExactOrOverflow "addition" (a.toInt + b.toInt)
      (BinaryOp.add.apply (.int a : Value ι) (.int b)) :=
    fun _ _ => (exact_iff.2 rfl).exactOrOverflow
  have hsub : ∀ a b : Int64, ExactOrOverflow "subtraction" (a.toInt - b.toInt)
      (BinaryOp.sub.apply (.int a : Value ι) (.int b)) :=
    fun _ _ => (exact_iff.2 rfl).exactOrOverflow
  have hmul : ∀ a b : Int64, ExactOrOverflow "multiplication" (a.toInt * b.toInt)
      (BinaryOp.mul.apply (.int a : Value ι) (.int b)) :=
    fun _ _ => (exact_iff.2 rfl).exactOrOverflow
  have hneg : ∀ a : Int64, ExactOrOverflow "negation" (-a.toInt)
      (UnaryOp.neg.apply (.int a : Value ι)) := fun _ => (exact_iff.2 rfl).exactOrOverflow
  refine ⟨hadd a b, hsub a b, hmul a b, hneg a, BinaryOp.apply_div a b,
    ?lt, ?gt, ?eq, ?ne, ?addComm, ?mulComm, ?subNeg, ?addSub⟩
  case lt => rw [BinaryOp.apply, BinaryOp.applyInt, decide_eq_decide.2 Int64.lt_iff_toInt_lt]
  case gt => rw [BinaryOp.apply, BinaryOp.applyInt, decide_eq_decide.2 Int64.lt_iff_toInt_lt]
  case eq =>
    rw [decide_eq_decide.2 Int64.toInt_inj]
    rfl
  case ne =>
    rw [decide_not, decide_eq_decide.2 Int64.toInt_inj]
    rfl
  case addComm => exact (hadd a b).unique (Int.add_comm a.toInt b.toInt ▸ hadd b a)
  case mulComm => exact (hmul a b).unique (Int.mul_comm a.toInt b.toInt ▸ hmul b a)
  case subNeg =>
    intro negative h v
    obtain ⟨c, hc, rfl⟩ := (hneg b).eq_ok_iff.1 h
    rw [(hsub a b).eq_ok_iff, (hadd a c).eq_ok_iff, hc, Int.sub_eq_add_neg]
  case addSub =>
    intro sum h
    obtain ⟨c, hc, rfl⟩ := (hadd a b).eq_ok_iff.1 h
    refine (hsub c b).eq_ok_iff.2 ⟨a, ?_, rfl⟩
    rw [hc, Int.add_sub_cancel]

/-- The one quotient of 64-bit integers that 64 bits do not hold; a negative dividend, whose
quotient is rounded up; and a difference as a sum. -/
theorem integer_operators_are_exact_at_the_boundary :
    let least : Int64 := Int64.minValue
    BinaryOp.div.apply (.int least : Value Unit) (.int (-1)) = .error (.overflow "division") ∧
    BinaryOp.div.apply (.int (-7) : Value Unit) (.int 2) = .ok (.int (-3)) ∧
    BinaryOp.add.apply (.int least : Value Unit) (.int 1) =
      .ok (.int (-9223372036854775807)) := by
  intro least
  obtain ⟨-, -, -, -, hleast, -, -, -, -, -, -, hlaw, -⟩ :=
    integer_operators_are_exact (ι := Unit) least (-1)
  obtain ⟨-, -, -, -, hseven, -⟩ := integer_operators_are_exact (ι := Unit) (-7) 2
  refine ⟨hleast.overflow.2 ⟨2 ^ 63, ⟨0, ?_⟩, ?_⟩, ?_, ?_⟩
  · decide
  · unfold FitsInt64
    omega
  · obtain ⟨c, hc, h⟩ := hseven.exact (by decide) nofun
    have hthree : (-3 : Int64).toInt = c.toInt := (truncatedQuotient_iff (by decide)).1 hc
    rw [h, Int64.toInt_inj.1 hthree]
  · exact (hlaw (.int 1) rfl _).1 rfl

end Monkey
