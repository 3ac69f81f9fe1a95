import Monkey.Proofs.Application

/-!
# Monkey — properties of every evaluation that finishes

`Keeps S` says that an evaluation, wherever it finishes, leads from machine to
machine along `S`. For a preorder `S` it passes through the evaluation of a tree
(`Keeps.compatible`) and, by induction on the calls that a call goes through, from
the bodies of functions to all calls (`call_keeps`). So what is left to show for a
whole run is what one `let`, one builtin and one body do.
-/

namespace Monkey

variable {ι : Type}

/-- Every run of the evaluation that finishes leads along the relation. -/
def EvalM.Keeps {β : Type} (S : Machine ι → Machine ι → Prop) (x : EvalM ι β) : Prop :=
  ∀ m r m', x.exec m = some (r, m') → S m m'

namespace EvalM.Keeps

variable {S : Machine ι → Machine ι → Prop} {β γ : Type}

theorem bind {x : EvalM ι β} {f : β → EvalM ι γ} (trans : ∀ {a b c}, S a b → S b c → S a c)
    (hx : x.Keeps S) (hf : ∀ b, (f b).Keeps S) : (x >>= f).Keeps S := by
  intro m r m' h
  rcases exec_bind_eq_some.1 h with ⟨b, m₁, h₁, h₂⟩ | ⟨i, h₁, rfl⟩
  · exact trans (hx m _ m₁ h₁) (hf b m₁ r m' h₂)
  · exact hx m _ m' h₁

theorem landed {x : EvalM ι (Value ι)} (hx : x.Keeps S) : x.landed.Keeps S := by
  intro m r m' h
  rw [exec_landed, Option.map_eq_some_iff] at h
  obtain ⟨⟨o, m₁⟩, h₁, h⟩ := h
  cases h
  exact hx m o _ h₁

/-- An evaluation that never changes the machine keeps every reflexive
relation. -/
theorem of_pure {x : EvalM ι β} (refl : ∀ m, S m m) (h : ∀ m, ∃ r, x.exec m = some (r, m)) :
    x.Keeps S := by
  intro m r m' hx
  obtain ⟨r', hr⟩ := h m
  rw [hr] at hx
  cases hx
  exact refl m

/-- A preorder along which a `let` leads passes through the evaluation of
trees. -/
theorem compatible {env : FrameId} {Bound : String → Prop} (refl : ∀ m, S m m)
    (trans : ∀ {a b c}, S a b → S b c → S a c)
    (bindName : ∀ m x v, Bound x → S m (m.bind env x v)) :
    Compatible env Bound fun _ x _ => x.Keeps S where
  pure _ := of_pure refl fun _ => ⟨_, rfl⟩
  bind := bind trans
  landed := landed
  returned _ := of_pure refl fun _ => ⟨_, rfl⟩
  identifier x := of_pure refl fun m => ⟨_, exec_identifier m env x⟩
  bindName x v hx := by
    intro m r m' h
    rw [exec_bindName] at h
    cases h
    exact bindName m x v hx
  unary _ _ := of_pure refl fun m => ⟨_, exec_ofExcept m _⟩
  binary _ _ _ := of_pure refl fun m => ⟨_, exec_ofExcept m _⟩
  index _ _ := of_pure refl fun m => ⟨_, exec_ofExcept m _⟩

end EvalM.Keeps

/-- Calls lead along a relation if builtins do, and if the body of a function does,
between the entry of the call and its end, whenever inner calls do. -/
theorem call_keeps {S : Machine ι → Machine ι → Prop} (refl : ∀ m, S m m)
    (builtin : ∀ (m : Machine ι) (b : Builtin) (args : List (Value ι)),
      S m { m with printer := (b.call args m.printer).2 })
    (body : ∀ c : Value ι → List (Value ι) → EvalM ι (Value ι), (∀ v vs, (c v vs).Keeps S) →
      ∀ (m m' : Machine ι) (f : FnLiteral ι) (env : FrameId) (args : List (Value ι)) (o : Outcome ι),
        (Block.eval c m.store.next f.body).exec (m.enter f env args) = some (o, m') → S m m'.leave)
    (limit : Option Nat) (callee : Value ι) (args : List (Value ι)) :
    (call limit callee args).Keeps S := by
  intro m o m' h
  refine call_induction limit (P := fun _ _ m r => S m r.2) (fun c hc => ?_) callee args m (o, m') h
  rintro callee args m ⟨o, m'⟩ h
  cases exec_callWith_iff.1 h with
  | arity _ => exact refl m
  | tooDeep _ _ _ => exact refl m
  | @builtin b _ => exact builtin m b args
  | notCallable _ _ => exact refl m
  | @closure f env _ o m₁ _ _ hbody =>
    exact body c (fun v vs m r m' h => hc v vs m (r, m') h) m m₁ f env args o hbody

end Monkey
