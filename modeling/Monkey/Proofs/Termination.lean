import Monkey.Proofs.Preservation

/-!
# Monkey — the depth of calls, and termination under a limit

Every evaluation that finishes gives the depth of calls back as it took it
(`call_keeps_depth`). Under a limit every evaluation finishes: a call starts its
body with one more call in progress, so the calls still admitted grow fewer
inward, while between calls evaluation goes down a tree.
-/

namespace Monkey

variable {ι : Type}

/-! ## The depth is given back -/

/-- The second machine has as many calls in progress as the first. -/
def SameDepth (m m' : Machine ι) : Prop := m'.depth = m.depth

theorem SameDepth.compatible (env : FrameId) :
    EvalM.Compatible env (fun _ => True) fun _ (x _ : EvalM ι _) => x.Keeps SameDepth :=
  EvalM.Keeps.compatible (fun _ => rfl) (fun h h' => h'.trans h) fun _ _ _ _ => rfl

/-- A call gives the depth back, whether its body ends with a value, a `return`
or an error, and also where it never begins. -/
theorem call_keeps_depth (limit : Option Nat) (callee : Value ι) (args : List (Value ι)) :
    (call limit callee args).Keeps SameDepth := by
  refine call_keeps (S := SameDepth) (fun _ => rfl) (fun _ _ _ => rfl) ?_ limit callee args
  intro c hc m m' f env args o hbody
  have hkeep : m'.depth = m.depth + 1 :=
    Block.eval_rel (d := c) (SameDepth.compatible _) hc f.body (fun _ _ => trivial) _ _ _ hbody
  change m'.depth - 1 = m.depth
  omega

/-- A phrase leaves as many calls in progress as there were. -/
theorem Phrase.eval_keeps_depth (limit : Option Nat) (env : FrameId) (phrase : Phrase ι) :
    (phrase.eval (call limit) env).Keeps SameDepth :=
  phrase.eval_rel (d := call limit) (SameDepth.compatible env) (call_keeps_depth limit)
    fun _ _ => trivial

/-! ## Termination -/

/-- On machines with `depth` calls in progress the evaluation finishes, with as
many in progress. -/
def EvalM.TotalAt {β : Type} (depth : Nat) (x : EvalM ι β) : Prop :=
  ∀ m, m.depth = depth → ∃ r m', x.exec m = some (r, m') ∧ m'.depth = depth

namespace EvalM.TotalAt

variable {depth : Nat} {β γ : Type}

theorem of_pure {x : EvalM ι β} (h : ∀ m, ∃ r, x.exec m = some (r, m)) : x.TotalAt depth := by
  intro m hm
  obtain ⟨r, hr⟩ := h m
  exact ⟨r, m, hr, hm⟩

/-- A step that always ends leaves the depth as it was, so the next one is at the same depth. -/
theorem bind {x : EvalM ι β} {f : β → EvalM ι γ} (hx : x.TotalAt depth)
    (hf : ∀ b, (f b).TotalAt depth) : (x >>= f).TotalAt depth := by
  intro m hm
  obtain ⟨r, m₁, h₁, hm₁⟩ := hx m hm
  cases r with
  | error i => exact ⟨.error i, m₁, exec_bind_eq_some.2 (.inr ⟨i, h₁, rfl⟩), hm₁⟩
  | ok b =>
    obtain ⟨r, m₂, h₂, hm₂⟩ := hf b m₁ hm₁
    exact ⟨r, m₂, exec_bind_eq_some.2 (.inl ⟨b, m₁, h₁, h₂⟩), hm₂⟩

theorem landed {x : EvalM ι (Value ι)} (hx : x.TotalAt depth) : x.landed.TotalAt depth := by
  intro m hm
  obtain ⟨o, m₁, h₁, hm₁⟩ := hx m hm
  exact ⟨_, m₁, by rw [exec_landed, h₁]; rfl, hm₁⟩

/-- Where calls finish, trees finish. -/
theorem compatible (depth : Nat) (env : FrameId) :
    Compatible env (fun _ => True) fun _ (x _ : EvalM ι _) => x.TotalAt depth where
  pure _ := of_pure fun _ => ⟨_, rfl⟩
  bind := bind
  landed := landed
  returned _ := of_pure fun _ => ⟨_, rfl⟩
  identifier x := of_pure fun m => ⟨_, exec_identifier m env x⟩
  bindName x v _ := fun m hm => ⟨_, _, exec_bindName m env x v, hm⟩
  unary _ _ := of_pure fun m => ⟨_, exec_ofExcept m _⟩
  binary _ _ _ := of_pure fun m => ⟨_, exec_ofExcept m _⟩
  index _ _ := of_pure fun m => ⟨_, exec_ofExcept m _⟩

end EvalM.TotalAt

/-- A call finishes where its body would, if the limit lets the body begin. -/
theorem callWith_totalAt {limit : Option Nat} {body : FrameId → Block ι → EvalM ι (Value ι)}
    {depth : Nat} (hbody : Admits limit depth → ∀ frame b, (body frame b).TotalAt (depth + 1))
    (callee : Value ι) (args : List (Value ι)) :
    (callWith limit body callee args).TotalAt depth := by
  intro m hm
  suffices h : ∃ o m', CallEnds limit body m callee args o m' ∧ m'.depth = depth by
    obtain ⟨o, m', hends, hm'⟩ := h
    exact ⟨o, m', exec_callWith_iff.2 hends, hm'⟩
  cases callee with
  | builtin b => exact ⟨_, _, .builtin, hm⟩
  | closure f env =>
    by_cases hlen : f.parameters.length = args.length
    · by_cases had : Admits limit m.depth
      · have hstart : (m.enter f env args).depth = depth + 1 := by rw [← hm]; rfl
        obtain ⟨o, m', hexec, hm'⟩ := hbody (hm ▸ had) m.store.next f.body _ hstart
        refine ⟨_, _, .closure hlen had hexec, ?_⟩
        change m'.depth - 1 = depth
        rw [hm', Nat.add_sub_cancel]
      · obtain ⟨most, hlim, hle⟩ := not_admits_iff.1 had
        exact ⟨_, _, .tooDeep hlen hlim hle, hm⟩
    · exact ⟨_, _, .arity hlen, hm⟩
  | _ => exact ⟨_, _, .notCallable (by simp [Value.type]) (by simp [Value.type]), hm⟩

/-- Under a limit every call finishes. The induction is on the number of calls
that the limit still admits. -/
theorem call_totalAt (most depth : Nat) (callee : Value ι) (args : List (Value ι)) :
    (call (some most) callee args).TotalAt depth := by
  induction hn : most - depth generalizing depth callee args with
  | zero =>
    rw [call_eq]
    refine callWith_totalAt (fun had => ?_) callee args
    have := had most rfl
    omega
  | succ n ih =>
    rw [call_eq]
    refine callWith_totalAt (fun had frame b => ?_) callee args
    exact Block.eval_rel (d := call (some most)) (EvalM.TotalAt.compatible (depth + 1) frame)
      (fun v vs => ih (depth + 1) v vs (by omega)) b fun _ _ => trivial

theorem Phrase.eval_totalAt (most depth : Nat) (env : FrameId) (phrase : Phrase ι) :
    (phrase.eval (call (some most)) env).TotalAt depth :=
  phrase.eval_rel (d := call (some most)) (EvalM.TotalAt.compatible depth env)
    (call_totalAt most depth) fun _ _ => trivial

/-- **A limit guarantees termination.** Under a limit on the depth of calls every
evaluation of a phrase and every run of a program finishes, on every machine and
in every frame. -/
theorem finishes_under_limit (most : Nat) (m : Machine ι) (env : FrameId) :
    (∀ phrase : Phrase ι, ∃ o m', m.evaluate (some most) phrase env = some (o, m')) ∧
      ∀ p : Program ι, ∃ r m', m.run (some most) p env = some (r, m') := by
  have hfin : ∀ phrase : Phrase ι, ∃ o m', m.evaluate (some most) phrase env = some (o, m') := by
    intro phrase
    obtain ⟨o, m', h, -⟩ := phrase.eval_totalAt most m.depth env m rfl
    exact ⟨o, m', h⟩
  refine ⟨hfin, fun p => ?_⟩
  obtain ⟨o, m', h⟩ := hfin (.program p)
  exact ⟨o.result, m', by rw [Machine.run, h]; rfl⟩

end Monkey
