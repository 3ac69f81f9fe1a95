import Monkey.Proofs.Likeness
import Monkey.Proofs.Preservation

/-!
# Monkey — printed text is never read

Nothing that is evaluated looks at the text that has been printed, or at where it goes.
So on another printer an evaluation ends alike and prints the same text, or does not
finish there either (`call_unread`, `Phrase.eval_unread`).
-/

namespace Monkey

variable {ι : Type}

/-- Wherever the first evaluation finishes, the second one finishes alike on every
printer, and has printed the same text there. -/
def EvalM.Unread {β : Type} (x y : EvalM ι β) : Prop :=
  ∀ m r m', x.exec m = some (r, m') → ∃ text, ∀ p : Printer,
    y.exec { m with printer := p } = some (r, { m' with printer := p.append text })

namespace EvalM.Unread

variable {β γ : Type} {x y : EvalM ι β}

/-- What an evaluation prints comes after what has been printed. -/
theorem exists_append (hx : x.Unread x) {m m' : Machine ι} {r : Except (Interrupt ι) β}
    (h : x.exec m = some (r, m')) :
    ∃ text, m'.printer = m.printer.append text ∧ ∀ p : Printer,
      x.exec { m with printer := p } = some (r, { m' with printer := p.append text }) := by
  obtain ⟨text, hp⟩ := hx m r m' h
  have heq := h.symm.trans (hp m.printer)
  exact ⟨text, congrArg (fun r => r.2.printer) (Option.some.inj heq), hp⟩

/-- An evaluation that does not finish does not finish on any other printer. -/
theorem eq_none (hx : x.Unread x) {m : Machine ι} (h : x.exec m = none) (p : Printer) :
    x.exec { m with printer := p } = none := by
  refine Option.eq_none_iff_forall_ne_some.2 fun ⟨r, m'⟩ hsome => ?_
  obtain ⟨text, hp⟩ := hx _ r m' hsome
  exact nomatch h.symm.trans (hp m.printer)

/-- An evaluation that leaves the machine alone, with a result that does not depend on
the printer. -/
theorem of_pure (h : ∀ m : Machine ι, ∃ r, ∀ p, x.exec { m with printer := p } =
    some (r, { m with printer := p })) : x.Unread x := by
  intro m r m' hx
  obtain ⟨r', hr⟩ := h m
  cases hx.symm.trans (hr m.printer)
  exact ⟨"", fun p => by rw [hr p, p.append_empty]⟩

theorem bind {f g : β → EvalM ι γ} (hx : x.Unread y) (hf : ∀ b, (f b).Unread (g b)) :
    (x >>= f).Unread (y >>= g) := by
  intro m r m' h
  rcases exec_bind_eq_some.1 h with ⟨b, m₁, h₁, h₂⟩ | ⟨i, h₁, rfl⟩
  · obtain ⟨s, hs⟩ := hx m _ m₁ h₁
    obtain ⟨t, ht⟩ := hf b m₁ r m' h₂
    refine ⟨s ++ t, fun p => ?_⟩
    rw [exec_bind_of_ok (hs p), ht, p.append_append]
  · obtain ⟨s, hs⟩ := hx m _ m' h₁
    exact ⟨s, fun p => exec_bind_of_error (hs p) g⟩

theorem landed {x y : EvalM ι (Value ι)} (hx : x.Unread y) : x.landed.Unread y.landed := by
  intro m r m' h
  rw [exec_landed, Option.map_eq_some_iff] at h
  obtain ⟨⟨o, m₁⟩, h₁, heq⟩ := h
  cases heq
  obtain ⟨text, hp⟩ := hx m o _ h₁
  exact ⟨text, fun p => exec_landed_of (hp p)⟩

theorem compatible (env : FrameId) :
    Compatible env (fun _ => True) fun _ (x y : EvalM ι _) => x.Unread y where
  pure _ := of_pure fun _ => ⟨_, fun _ => rfl⟩
  bind := bind
  landed := landed
  returned _ := of_pure fun _ => ⟨_, fun _ => rfl⟩
  identifier x := of_pure fun m => by
    simp only [exec_identifier]
    exact ⟨_, fun _ => rfl⟩
  bindName x v _ := by
    intro m r m' h
    cases h
    exact ⟨"", fun p => by rw [p.append_empty]; rfl⟩
  unary _ _ := of_pure fun m => ⟨_, fun p => exec_ofExcept { m with printer := p } _⟩
  binary _ _ _ := of_pure fun m => ⟨_, fun p => exec_ofExcept { m with printer := p } _⟩
  index _ _ := of_pure fun m => ⟨_, fun p => exec_ofExcept { m with printer := p } _⟩

end EvalM.Unread

/-- The result of a builtin does not depend on the printer. -/
theorem Builtin.call_fst (b : Builtin) (args : List (Value ι)) (p q : Printer) :
    (b.call args p).1 = (b.call args q).1 := by
  cases b <;> rfl

/-- A call does not read the printed text if the body of a function does not. -/
theorem callWith_unread (limit : Option Nat) {body body' : FrameId → Block ι → EvalM ι (Value ι)}
    (hbody : ∀ frame b, (body frame b).Unread (body' frame b)) (callee : Value ι)
    (args : List (Value ι)) :
    (callWith limit body callee args).Unread (callWith limit body' callee args) := by
  intro m o m' h
  suffices hends : ∃ text, ∀ p : Printer, CallEnds limit body' { m with printer := p } callee args
      o { m' with printer := p.append text } by
    obtain ⟨text, hp⟩ := hends
    exact ⟨text, fun p => exec_callWith_iff.2 (hp p)⟩
  cases exec_callWith_iff.1 h with
  | arity hne => exact ⟨"", fun p => p.append_empty.symm ▸ .arity hne⟩
  | tooDeep heq hlim hle => exact ⟨"", fun p => p.append_empty.symm ▸ .tooDeep heq hlim hle⟩
  | notCallable hf hb => exact ⟨"", fun p => p.append_empty.symm ▸ .notCallable hf hb⟩
  | @builtin b _ =>
    refine ⟨b.printed args, fun p => ?_⟩
    rw [b.call_fst args m.printer p, ← b.call_snd]
    exact .builtin
  | closure heq had hexec =>
    obtain ⟨text, hp⟩ := hbody _ _ _ _ _ hexec
    refine ⟨text, fun p => ?_⟩
    have hends := CallEnds.closure (m := { m with printer := p }) heq had (hp p)
    exact hends

/-- Calls do not read the printed text. The induction is on the calls that a finished
call went through. -/
theorem call_unread (limit : Option Nat) (callee : Value ι) (args : List (Value ι)) :
    (call limit callee args).Unread (call limit callee args) := by
  suffices h : ∀ callee args m r, (call limit callee args).exec m = some r →
      ∃ text, ∀ p : Printer, (call limit callee args).exec { m with printer := p } =
        some (r.1, { r.2 with printer := p.append text }) from
    fun m o m' hexec => h callee args m (o, m') hexec
  refine call_induction limit fun c hc callee args m r hexec => ?_
  have hinner : ∀ v vs, (c v vs).Unread (call limit v vs) :=
    fun v vs m o m' hexec => hc v vs m (o, m') hexec
  rw [call_eq]
  exact callWith_unread limit
    (fun frame b => Block.eval_rel (EvalM.Unread.compatible frame) hinner b fun _ _ => trivial)
    callee args m r.1 r.2 hexec

/-- Nor do phrases. -/
theorem Phrase.eval_unread (limit : Option Nat) (env : FrameId) (phrase : Phrase ι) :
    (phrase.eval (call limit) env).Unread (phrase.eval (call limit) env) :=
  phrase.eval_rel (EvalM.Unread.compatible env) (call_unread limit) fun _ _ => trivial

end Monkey
