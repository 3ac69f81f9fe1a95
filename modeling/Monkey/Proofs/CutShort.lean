import Monkey.Proofs.OperatorRules
import Monkey.Proofs.Printed

/-!
# Monkey — evaluations cut short

`CutsShort` compares an evaluation under a limit with the same evaluation under
a larger one, or under none: unless the first ends because calls are too deep,
both end alike, and what the first has printed then is a prefix of what the
second prints. The comparison passes through trees and, since only the check at
the start of a call says that calls are too deep, through calls
(`call_cutsShort`).
-/

namespace Monkey

variable {ι : Type}

/-! ## Who says that calls are too deep -/

/-- Calls were too deep for a limit. -/
def Exceeds {β : Type} (most : Nat) (r : Except (Interrupt ι) β) : Prop :=
  r = .error (.error (.tooDeep most))

/-- At the boundary of a `return`, calls are too deep where they were before. -/
theorem Exceeds.of_result {n : Nat} {o : Outcome ι}
    (h : Exceeds n (o.result.mapError (Interrupt.error : EvalError → Interrupt ι))) :
    Exceeds n o := by
  rcases o with (err | v) | v
  · exact h
  · cases h
  · cases h

/-- No operator fails for the depth of calls. -/
theorem UnaryOp.apply_ne_tooDeep (op : UnaryOp) (v : Value ι) (n : Nat) :
    op.apply v ≠ .error (.tooDeep n) := by
  intro h
  cases UnaryOp.gives_iff.2 h.symm with
  | neg hexact => cases hexact

theorem BinaryOp.apply_ne_tooDeep (op : BinaryOp) (v w : Value ι) (n : Nat) :
    op.apply v w ≠ .error (.tooDeep n) := by
  intro h
  cases BinaryOp.gives_iff.2 h.symm with
  | add hexact => cases hexact
  | sub hexact => cases hexact
  | mul hexact => cases hexact
  | div _ hexact => cases hexact

theorem Value.index_ne_tooDeep (v w : Value ι) (n : Nat) : v.index w ≠ .error (.tooDeep n) := by
  intro h
  cases Value.indexGives_iff.2 h.symm

/-- A sequence fails with an error only if one of its parts does. -/
theorem bind_ne_error {β γ : Type} {x : Except EvalError β} {f : β → Except EvalError γ}
    {err : EvalError} (hx : x ≠ .error err) (hf : ∀ b, f b ≠ .error err) :
    x >>= f ≠ .error err := by
  cases x with
  | error e => exact fun h => hx (by cases h; rfl)
  | ok b => exact hf b

/-- An integer is out of range or not. -/
theorem Value.ofInt_ne_tooDeep (operation : String) (a : Int) (n : Nat) :
    (Value.ofInt operation a : Except EvalError (Value ι)) ≠ .error (.tooDeep n) := by
  rw [Value.ofInt]
  intro h
  split at h <;> cases h

theorem Builtin.oneArgument_ne_tooDeep (args : List (Value ι)) (n : Nat) :
    oneArgument args ≠ .error (.tooDeep n) := by
  rcases args with _ | ⟨v, _ | ⟨w, ws⟩⟩ <;> exact nofun

theorem Builtin.elementsOf_ne_tooDeep (b : Builtin) (v : Value ι) (n : Nat) :
    elementsOf b v ≠ .error (.tooDeep n) := by
  rw [elementsOf]
  cases v.elements? <;> exact nofun

/-- Nor does a builtin, so only the call of a function does. -/
theorem Builtin.call_ne_tooDeep (b : Builtin) (args : List (Value ι)) (p : Printer) (n : Nat) :
    (b.call args p).1 ≠ .error (.tooDeep n) := by
  cases b with
  | len =>
    refine bind_ne_error (oneArgument_ne_tooDeep args n) fun v => ?_
    cases v with
    | str s => exact Value.ofInt_ne_tooDeep _ _ n
    | array vs => exact Value.ofInt_ne_tooDeep _ _ n
    | _ => exact nofun
  | first =>
    exact bind_ne_error (oneArgument_ne_tooDeep args n) fun v =>
      bind_ne_error (elementsOf_ne_tooDeep _ v n) fun _ => nofun
  | last =>
    exact bind_ne_error (oneArgument_ne_tooDeep args n) fun v =>
      bind_ne_error (elementsOf_ne_tooDeep _ v n) fun _ => nofun
  | rest =>
    refine bind_ne_error (oneArgument_ne_tooDeep args n) fun v =>
      bind_ne_error (elementsOf_ne_tooDeep _ v n) fun vs => ?_
    cases vs <;> exact nofun
  | push =>
    rcases args with _ | ⟨v, _ | ⟨w, _ | ⟨u, us⟩⟩⟩
    · exact nofun
    · exact nofun
    · exact bind_ne_error (elementsOf_ne_tooDeep _ v n) fun _ => nofun
    · exact nofun
  | log => exact nofun

/-! ## Cutting short -/

/-- The first evaluation may end because calls are too deep for its limit, and
then it has printed a prefix of what the second one prints; otherwise they end
alike. -/
structure EvalM.CutsShort {β : Type} (most : Nat) (x y : EvalM ι β) : Prop where
  printed : y.Keeps Printed
  alike : ∀ m r m', x.exec m = some (r, m') → (∀ n, ¬ Exceeds n r) → y.exec m = some (r, m')
  cut : ∀ m n r m', x.exec m = some (r, m') → Exceeds n r →
    n = most ∧ ∀ r₂ m₂, y.exec m = some (r₂, m₂) → Printed m' m₂

namespace EvalM.CutsShort

variable {most : Nat} {β γ : Type}

/-- An evaluation without calls is not cut short. -/
theorem of_not_exceeds {x : EvalM ι β} (hprinted : x.Keeps Printed)
    (h : ∀ m r m' n, x.exec m = some (r, m') → ¬ Exceeds n r) : x.CutsShort most x where
  printed := hprinted
  alike _ _ _ hx _ := hx
  cut m n r m' hx hr := absurd hr (h m r m' n hx)

theorem ofExcept {r : Except EvalError β} (h : ∀ n, r ≠ .error (.tooDeep n)) :
    (EvalM.ofExcept r : EvalM ι β).CutsShort most (EvalM.ofExcept r) := by
  refine of_not_exceeds (.of_pure (fun _ => .refl _) fun m => ⟨_, exec_ofExcept m r⟩) ?_
  intro m r' m' n hexec
  rw [exec_ofExcept] at hexec
  cases hexec
  exact mt mapError_eq_error_iff.1 (h n)

theorem bind {x y : EvalM ι β} {f g : β → EvalM ι γ} (hxy : x.CutsShort most y)
    (hfg : ∀ b, (f b).CutsShort most (g b)) : (x >>= f).CutsShort most (y >>= g) where
  printed := .bind .trans hxy.printed fun b => (hfg b).printed
  alike m r m' h hr := by
    rcases exec_bind_eq_some.1 h with ⟨b, m₁, h₁, h₂⟩ | ⟨i, h₁, rfl⟩
    · rw [exec_bind_of_ok (hxy.alike m _ m₁ h₁ fun n => nofun)]
      exact (hfg b).alike m₁ r m' h₂ hr
    · refine exec_bind_of_error (hxy.alike m _ m' h₁ fun n hn => hr n ?_) g
      cases hn
      rfl
  cut m n r m' h hr := by
    rcases exec_bind_eq_some.1 h with ⟨b, m₁, h₁, h₂⟩ | ⟨i, h₁, rfl⟩
    · rw [exec_bind_of_ok (hxy.alike m _ m₁ h₁ fun n => nofun)]
      exact (hfg b).cut m₁ n r m' h₂ hr
    · cases hr
      obtain ⟨hn, hprinted⟩ := hxy.cut m n _ m' h₁ rfl
      refine ⟨hn, fun r₂ m₂ hy => ?_⟩
      -- the second evaluation may go on, but only prints more
      rcases exec_bind_eq_some.1 hy with ⟨b, m₁, h₂, h₃⟩ | ⟨j, h₂, -⟩
      · exact (hprinted _ m₁ h₂).trans ((hfg b).printed m₁ r₂ m₂ h₃)
      · exact hprinted _ m₂ h₂

theorem landed {x y : EvalM ι (Value ι)} (hxy : x.CutsShort most y) :
    x.landed.CutsShort most y.landed where
  printed := .landed hxy.printed
  alike m r m' h hr := by
    rw [exec_landed, Option.map_eq_some_iff] at h
    obtain ⟨⟨o, m₁⟩, h₁, h⟩ := h
    cases h
    refine exec_landed_of (hxy.alike m o m' h₁ fun n hn => hr n ?_)
    cases hn
    rfl
  cut m n r m' h hr := by
    rw [exec_landed, Option.map_eq_some_iff] at h
    obtain ⟨⟨o, m₁⟩, h₁, h⟩ := h
    cases h
    obtain ⟨hn, hprinted⟩ := hxy.cut m n o m' h₁ (Exceeds.of_result hr)
    refine ⟨hn, fun r₂ m₂ hy => ?_⟩
    rw [exec_landed, Option.map_eq_some_iff] at hy
    obtain ⟨⟨o₂, m₃⟩, h₂, hy⟩ := hy
    cases hy
    exact hprinted o₂ m₂ h₂

/-- Where calls are only cut short, trees are. -/
theorem compatible (most : Nat) (env : FrameId) :
    Compatible env (fun _ => True) fun _ (x y : EvalM ι _) => x.CutsShort most y where
  pure b := ofExcept (r := .ok b) fun _ => nofun
  bind := bind
  landed := landed
  returned v := by
    refine of_not_exceeds (.of_pure (fun _ => .refl _) fun m => ⟨_, rfl⟩) ?_
    intro m r m' n hexec
    cases hexec
    exact nofun
  identifier x := by
    refine of_not_exceeds (.of_pure (fun _ => .refl _) fun m => ⟨_, exec_identifier m env x⟩) ?_
    intro m r m' n hexec
    rw [exec_identifier] at hexec
    cases hexec
    cases m.store.lookup env x with
    | some v => exact nofun
    | none => cases Builtin.ofName? x <;> exact nofun
  bindName x v _ := by
    refine of_not_exceeds (fun m r m' hexec => ?_) ?_
    · cases hexec
      exact .refl _
    · intro m r m' n hexec
      cases hexec
      exact nofun
  unary op v := ofExcept (op.apply_ne_tooDeep v)
  binary op v w := ofExcept (op.apply_ne_tooDeep v w)
  index v w := ofExcept (v.index_ne_tooDeep w)

end EvalM.CutsShort

/-- A larger limit, or none, admits the calls that a limit admits. -/
theorem Admits.of_le {most depth : Nat} {limit : Option Nat} (hle : ∀ n, limit = some n → most ≤ n)
    (h : Admits (some most) depth) : Admits limit depth :=
  fun n hn => Nat.lt_of_lt_of_le (h most rfl) (hle n hn)

/-- A limit only cuts calls short, whatever larger limit they are compared with.
The induction is on the calls that a finished call under the limit went
through. -/
theorem call_cutsShort {most : Nat} {limit : Option Nat} (hle : ∀ n, limit = some n → most ≤ n)
    (callee : Value ι) (args : List (Value ι)) :
    (call (some most) callee args).CutsShort most (call limit callee args) := by
  suffices h : ∀ m r, (call (some most) callee args).exec m = some r →
      ((∀ n, ¬ Exceeds n r.1) → (call limit callee args).exec m = some r) ∧
      ∀ n, Exceeds n r.1 → n = most ∧
        ∀ r₂ m₂, (call limit callee args).exec m = some (r₂, m₂) → Printed r.2 m₂ from
    { printed := call_printed limit callee args
      alike := fun m r m' hexec => (h m (r, m') hexec).1
      cut := fun m n r m' hexec => (h m (r, m') hexec).2 n }
  refine call_induction (some most) (P := fun callee args m r =>
    ((∀ n, ¬ Exceeds n r.1) → (call limit callee args).exec m = some r) ∧
    ∀ n, Exceeds n r.1 → n = most ∧
      ∀ r₂ m₂, (call limit callee args).exec m = some (r₂, m₂) → Printed r.2 m₂)
    (fun c hc => ?_) callee args
  have hcall : ∀ v vs, (c v vs).CutsShort most (call limit v vs) := fun v vs =>
    { printed := call_printed limit v vs
      alike := fun m r m' hexec => (hc v vs m (r, m') hexec).1
      cut := fun m n r m' hexec => (hc v vs m (r, m') hexec).2 n }
  rintro callee args m ⟨o, m'⟩ h
  cases exec_callWith_iff.1 h with
  | arity hlen => exact ⟨fun _ => exec_call_iff.2 (.arity hlen), fun _ => nofun⟩
  | @tooDeep f env _ n hlen hlim _ =>
    cases hlim
    refine ⟨fun hr => absurd rfl (hr most), fun n hr => ?_⟩
    cases hr
    exact ⟨rfl, fun r₂ m₂ hexec => call_printed limit _ args m r₂ m₂ hexec⟩
  | @builtin b _ =>
    refine ⟨fun _ => exec_call_iff.2 .builtin, fun n hr => ?_⟩
    exact absurd (mapError_eq_error_iff.1 hr) (b.call_ne_tooDeep args m.printer n)
  | notCallable hf hb => exact ⟨fun _ => exec_call_iff.2 (.notCallable hf hb), fun _ => nofun⟩
  | @closure f env _ o₁ m₁ hlen had hbody =>
    have hcuts : (Block.eval c m.store.next f.body).CutsShort most
        (Block.eval (call limit) m.store.next f.body) :=
      Block.eval_rel (EvalM.CutsShort.compatible most _) hcall f.body fun _ _ => trivial
    constructor
    · intro hr
      refine exec_call_iff.2 (.closure hlen (had.of_le hle) ?_)
      refine hcuts.alike _ _ _ hbody fun n hn => ?_
      cases hn
      exact hr n rfl
    · intro n hr
      obtain ⟨hn, hprinted⟩ := hcuts.cut _ n _ _ hbody (Exceeds.of_result hr)
      refine ⟨hn, fun r₂ m₂ hexec => ?_⟩
      cases exec_call_iff.1 hexec with
      | arity hne => exact absurd hlen hne
      | tooDeep _ hlim hdeep => exact absurd (had.of_le hle _ hlim) (Nat.not_lt.2 hdeep)
      | notCallable hf _ => exact absurd rfl hf
      | closure _ _ hbody₂ =>
        have hwithin := hprinted _ _ hbody₂
        exact hwithin

end Monkey
