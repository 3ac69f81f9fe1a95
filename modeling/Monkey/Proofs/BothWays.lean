import Monkey.Proofs.Mirror

/-!
# Monkey — likeness in both directions

A mirror says of two runs that the second one finishes wherever the first one does.
What it asks of the two sides is the same, so it can be turned round
(`Mirror.turned`), and then the first run finishes wherever the second one does. On
alike machines, therefore, both finish, with alike results, or neither does
(`Block.eval_matched`, `Program.eval_matched`).
-/

namespace Monkey

variable {ι : Type} {C : FnLiteral ι → FrameId → FrameId → Prop}

theorem optionRel_mono {α β : Type} {V U : α → β → Prop} {x : Option α} {y : Option β}
    (hVU : ∀ a b, V a b → U a b) (h : Option.Rel V x y) : Option.Rel U x y := by
  cases h with
  | none => exact .none
  | some hab => exact .some (hVU _ _ hab)

/-- Two optional values are related if both are missing, or both are there and
related. -/
theorem optionRel_iff {α β : Type} {V : α → β → Prop} {x : Option α} {y : Option β} :
    Option.Rel V x y ↔ (x = none ↔ y = none) ∧ ∀ a, x = some a → ∃ b, y = some b ∧ V a b := by
  constructor
  · intro h
    cases h with
    | none => exact ⟨⟨fun _ => rfl, fun _ => rfl⟩, nofun⟩
    | some hab =>
      refine ⟨⟨nofun, nofun⟩, ?_⟩
      rintro _ ⟨⟩
      exact ⟨_, rfl, hab⟩
  · rintro ⟨hnone, hsome⟩
    cases x with
    | none =>
      rw [hnone.1 rfl]
      exact .none
    | some a =>
      obtain ⟨b, rfl, hab⟩ := hsome a rfl
      exact .some hab

mutual

/-- Alike values are alike the other way round. -/
theorem Value.Alike.turned :
    ∀ {v w : Value ι}, v.Alike C w → w.Alike (fun f a b => C f b a) v
  | .int n, _, .int _ => .int n
  | .bool b, _, .bool _ => .bool b
  | .str s, _, .str _ => .str s
  | .array _, _, .array hs => .array (Value.Alike.turned_list hs)
  | .closure _ _, _, .closure hc => .closure hc
  | .builtin b, _, .builtin _ => .builtin b
  | .null, _, .null => .null
termination_by structural v => v

theorem Value.Alike.turned_list :
    ∀ {vs ws : List (Value ι)}, List.Forall₂ (Value.Alike C) vs ws →
      List.Forall₂ (Value.Alike fun f a b => C f b a) ws vs
  | [], _, .nil => .nil
  | _ :: _, _, .cons hv hvs => .cons hv.turned (Value.Alike.turned_list hvs)
termination_by structural vs => vs

end

namespace Mirror

variable {W : Type} [Preorder W] {limit : Option Nat}

/-- A mirror with its two sides exchanged. -/
def turned (M : Mirror ι W limit) : Mirror ι W limit where
  Machines w m n := M.Machines w n m
  Closures w f a b := M.Closures w f b a
  Frames w a b access := M.Frames w b a access
  closures_mono := M.closures_mono
  frames_mono := M.frames_mono
  read {w m n a b x} hmn hframe := by
    have hread := M.read hmn hframe
    generalize n.store.lookup b x = found, m.store.lookup a x = found' at hread ⊢
    cases hread with
    | some hv => exact .some hv.turned
    | none => exact .none
  write hmn hframe hv := M.write hmn hframe hv.turned
  capture := M.capture
  print text hmn := M.print text hmn
  admits_iff hmn := (M.admits_iff hmn).symm
  enter hmn hclosure hargs := M.enter hmn hclosure (Value.Alike.turned_list hargs)
  leave := M.leave

variable (M : Mirror ι W limit) {w : W} {m n : Machine ι}

/-- From a world on, two evaluations end alike on two machines, or neither finishes. -/
def Matched {β γ : Type} (w : W) (V : W → β → γ → Prop) (x : EvalM ι β) (y : EvalM ι γ)
    (m n : Machine ι) : Prop :=
  Option.Rel (fun r q => ∃ w', w ≤ w' ∧ M.Machines w' r.2 q.2 ∧
    ResultsAlike (Interrupt.Alike (M.Closures w')) (V w') r.1 q.1) (x.exec m) (y.exec n)

variable {M}

/-- Evaluations that mirror each other in both directions are matched. -/
theorem Mirrors.matched {β γ : Type} {V : W → β → γ → Prop} {U : W → γ → β → Prop}
    {x : EvalM ι β} {y : EvalM ι γ} (h : M.Mirrors w V x y) (h' : M.turned.Mirrors w U y x)
    (hmn : M.Machines w m n) : M.Matched w V x y m n := by
  unfold Matched
  rcases hx : x.exec m with _ | ⟨r, m'⟩
  · rcases hy : y.exec n with _ | ⟨q, n'⟩
    · exact .none
    · obtain ⟨_, _, _, -, hx', -⟩ := h' w (le_refl w) n m hmn q n' hy
      exact nomatch hx.symm.trans hx'
  · obtain ⟨w', q, n', hle, hy, hmn', hrq⟩ := h w (le_refl w) m n hmn r m' hx
    rw [hy]
    exact .some ⟨w', hle, hmn', hrq⟩

namespace Matched

variable {β γ : Type} {V : W → β → γ → Prop} {x : EvalM ι β} {y : EvalM ι γ}

theorem none_iff (h : M.Matched w V x y m n) : x.exec m = none ↔ y.exec n = none :=
  (optionRel_iff.1 h).1

theorem of_some (h : M.Matched w V x y m n) {r : Except (Interrupt ι) β} {m' : Machine ι}
    (hx : x.exec m = some (r, m')) :
    ∃ w' q n', w ≤ w' ∧ y.exec n = some (q, n') ∧ M.Machines w' m' n' ∧
      ResultsAlike (Interrupt.Alike (M.Closures w')) (V w') r q := by
  obtain ⟨⟨q, n'⟩, hy, w', hle, hmn', hrq⟩ := (optionRel_iff.1 h).2 _ hx
  exact ⟨w', q, n', hle, hy, hmn', hrq⟩

end Matched

end Mirror

section Runs

variable {W : Type} [Preorder W] {limit : Option Nat} {M : Mirror ι W limit} {w : W}
variable {m n : Machine ι} {a b : FrameId}

/-- On alike machines the evaluations of a block are matched. -/
theorem Block.eval_matched (block : Block ι) (hmn : M.Machines w m n)
    (h : ∀ access ∈ Stmt.accessesList block, M.Frames w a b access) :
    M.Matched w M.Values (Block.eval (call limit) a block) (Block.eval (call limit) b block) m n :=
  (Block.eval_mirrors (call_mirrors M) block h).matched
    (Block.eval_mirrors (call_mirrors M.turned) block h) hmn

/-- So are those of a program. -/
theorem Program.eval_matched (p : Program ι) (hmn : M.Machines w m n)
    (h : ∀ access ∈ Stmt.accessesList p.statements, M.Frames w a b access) :
    M.Matched w M.Values (p.eval (call limit) a) (p.eval (call limit) b) m n :=
  (Program.eval_mirrors (call_mirrors M) p h).matched
    (Program.eval_mirrors (call_mirrors M.turned) p h) hmn

end Runs

end Monkey
