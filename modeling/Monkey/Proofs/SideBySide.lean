import Monkey.Proofs.Reachable

/-!
# Monkey — two runs, moment by moment

A mirror compares what two evaluations come to. It also compares how they go: where two
moments are alike, whatever comes about in the course of the first one comes about at
the same place in the course of the second one, and is alike there
(`Moment.Course.alike`). What has become alike by the end of an inner moment is still
alike at the end of the outer one, so each lemma here says also how the ends of two
inner moments lead to the ends of the outer ones.
-/

namespace Monkey

variable {ι W : Type} [Preorder W] {limit : Option Nat}

namespace Mirror

variable (M : Mirror ι W limit)

/-- Two tasks are alike in a world: the same code in frames where its accesses are
answered alike, or the application of alike values. -/
inductive Tasks (w : W) : {k : Kind} → Task ι k → Task ι k → Prop
  | expression {a b : FrameId} {e : Expr ι} :
      (∀ access ∈ e.accesses, M.Frames w a b access) →
      Tasks w (.expression a e) (.expression b e)
  | expressions {a b : FrameId} {es : List (Expr ι)} :
      (∀ access ∈ Expr.accessesList es, M.Frames w a b access) →
      Tasks w (.expressions a es) (.expressions b es)
  | statement {a b : FrameId} {s : Stmt ι} :
      (∀ access ∈ s.accesses, M.Frames w a b access) →
      Tasks w (.statement a s) (.statement b s)
  | block {a b : FrameId} {ss : Block ι} :
      (∀ access ∈ Stmt.accessesList ss, M.Frames w a b access) →
      Tasks w (.block a ss) (.block b ss)
  | program {a b : FrameId} {ss : List (Stmt ι)} :
      (∀ access ∈ Stmt.accessesList ss, M.Frames w a b access) →
      Tasks w (.program a ss) (.program b ss)
  | apply {v v' : Value ι} {vs vs' : List (Value ι)} :
      M.Values w v v' → M.ValueLists w vs vs' → Tasks w (.apply v vs) (.apply v' vs')

variable {M} {w : W} {m m₁ n n₁ : Machine ι}

/-- The evaluations of alike tasks mirror each other. -/
theorem Tasks.mirrors {k : Kind} {t t' : Task ι k} (h : M.Tasks w t t') :
    M.Mirrors w (M.Answers k) (t.eval limit) (t'.eval limit) := by
  have hcalls := call_mirrors M
  cases h with
  | expression h => exact Expr.eval_mirrors hcalls _ h
  | expressions h => exact Expr.evalList_mirrors hcalls _ h
  | statement h => exact Stmt.eval_mirrors hcalls _ h
  | block h => exact Block.eval_mirrors hcalls _ h
  | program h => exact Program.eval_mirrors hcalls ⟨_⟩ h
  | apply hv hvs => exact hcalls w _ _ _ _ hv hvs

theorem Mirrors.ok_at {β γ : Type} {V : W → β → γ → Prop} {x : EvalM ι β} {y : EvalM ι γ}
    (h : M.Mirrors w V x y) (hmn : M.Machines w m n) {b : β} (hx : x.exec m = some (.ok b, m₁)) :
    ∃ w' c n₁, w ≤ w' ∧ y.exec n = some (.ok c, n₁) ∧ M.Machines w' m₁ n₁ ∧ V w' b c := by
  obtain ⟨w', q, n₁, hle, hy, hmn₁, hq⟩ := h w (le_refl w) m n hmn _ _ hx
  cases hq with
  | ok hbc => exact ⟨w', _, n₁, hle, hy, hmn₁, hbc⟩

end Mirror

/-! ## Conditions -/

section Conditions

variable {M : Mirror ι W limit} {w : W} {a b env : FrameId} {e : Expr ι} {yes : Block ι}
variable {no : Option (Block ι)} {c d : Value ι → List (Value ι) → EvalM ι (Value ι)}

/-- The branch of a condition that is executed after its test. -/
def Expr.branch (c : Value ι → List (Value ι) → EvalM ι (Value ι)) (env : FrameId)
    (yes : Block ι) (no : Option (Block ι)) (v : Value ι) : EvalM ι (Value ι) :=
  if v.truthy then Block.eval c env yes
  else match no with
    | none => pure .null
    | some no => Block.eval c env no

theorem Expr.eval_cond (e : Expr ι) (yes : Block ι) (no : Option (Block ι)) :
    (Expr.cond e yes no).eval c env = (do let v ← e.eval c env; Expr.branch c env yes no v) := by
  cases no <;> rfl

theorem Expr.branch_of_not_falsy {v : Value ι} (h : ¬ v.Falsy) :
    Expr.branch c env yes no v = Block.eval c env yes :=
  if_pos ((Value.truthy_iff v).2 h)

theorem Expr.branch_of_falsy {no : Block ι} {v : Value ι} (h : v.Falsy) :
    Expr.branch c env yes (some no) v = Block.eval c env no :=
  if_neg fun htrue => (Value.truthy_iff v).1 htrue h

/-- The accesses of a condition are those of its test, of its first branch and of its
second one, if there is one. -/
theorem Expr.forall_accesses_cond {P : Access ι → Prop}
    (h : ∀ access ∈ (Expr.cond e yes no).accesses, P access) :
    (∀ access ∈ e.accesses, P access) ∧ (∀ access ∈ Stmt.accessesList yes, P access) ∧
      ∀ ss, no = some ss → ∀ access ∈ Stmt.accessesList ss, P access := by
  cases no with
  | none =>
    obtain ⟨he, hyes⟩ := List.forall_mem_append.1 h
    exact ⟨he, hyes, nofun⟩
  | some no =>
    obtain ⟨he, h⟩ := List.forall_mem_append.1 h
    obtain ⟨hyes, hno⟩ := List.forall_mem_append.1 h
    refine ⟨he, hyes, ?_⟩
    rintro _ ⟨⟩
    exact hno

/-- After alike tests the branches that are executed mirror each other. -/
theorem Expr.branch_mirrors (hc : M.CallsMirror c d)
    (h : ∀ access ∈ (Expr.cond e yes no).accesses, M.Frames w a b access) {v v' : Value ι}
    (hv : v'.truthy = v.truthy) :
    M.Mirrors w M.Values (Expr.branch c a yes no v) (Expr.branch d b yes no v') := by
  obtain ⟨-, hyes, hno⟩ := Expr.forall_accesses_cond h
  unfold Expr.branch
  rw [hv]
  split
  · exact Block.eval_mirrors hc yes hyes
  · cases no with
    | none => exact .pure fun _ _ => .null
    | some no => exact Block.eval_mirrors hc no (hno no rfl)

theorem Value.Alike.falsy_iff {C : FnLiteral ι → FrameId → FrameId → Prop} {v v' : Value ι}
    (h : v.Alike C v') : v'.Falsy ↔ v.Falsy := by
  rw [← not_iff_not, ← Value.truthy_iff, ← Value.truthy_iff, h.truthy_eq]

end Conditions

/-! ## One step -/

namespace Mirror

variable (M : Mirror ι W limit) {w : W} {m n : Machine ι} {a b : FrameId} {i : Step}
variable {y : Moment ι}

/-- What the first of two moments opens, the second one opens alike at the same step,
and the two end alike where what they open does. -/
def OpensAlike (w : W) {k : Kind} (t t' : Task ι k) (m n : Machine ι) (i : Step)
    (y : Moment ι) : Prop :=
  ∃ (w₁ : W) (u : Task ι y.kind) (n₁ : Machine ι), w ≤ w₁ ∧ Moment.Opens limit ⟨t', n⟩ i ⟨u, n₁⟩ ∧
    M.Tasks w₁ y.task u ∧ M.Machines w₁ y.machine n₁ ∧ ∀ w₂, w₁ ≤ w₂ →
      M.MirrorsAt w₂ (M.Answers y.kind) (y.task.eval limit) (u.eval limit) y.machine n₁ →
      M.MirrorsAt w₂ (M.Answers k) (t.eval limit) (t'.eval limit) m n

variable {M}

theorem frames_mono_all {w₁ : W} (hle : w ≤ w₁) {accesses : List (Access ι)}
    (h : ∀ access ∈ accesses, M.Frames w a b access) :
    ∀ access ∈ accesses, M.Frames w₁ a b access :=
  fun access haccess => M.frames_mono hle (h access haccess)

end Mirror

namespace Moment.Opens

variable {M : Mirror ι W limit} {w : W} {m n : Machine ι} {a b : FrameId} {i : Step}
variable {y : Moment ι}

/-- Expressions open alike moments. -/
theorem alike_expression {e : Expr ι} (h : Opens limit ⟨.expression a e, m⟩ i y)
    (hframes : ∀ access ∈ e.accesses, M.Frames w a b access) (hmn : M.Machines w m n) :
    M.OpensAlike w (.expression a e) (.expression b e) m n i y := by
  have hc := call_mirrors M
  have hle := le_refl w
  cases h with
  | array =>
    exact ⟨w, _, n, hle, .array, .expressions hframes, hmn, fun w₂ hw₂ hy =>
      hy.bind fun _ _ _ _ hvs => .pure fun _ hw => .array (M.valueLists_mono hw hvs)⟩
  | @unary _ op =>
    exact ⟨w, _, n, hle, .unary, .expression hframes, hmn, fun w₂ hw₂ hy =>
      hy.bind fun _ _ _ _ hv => .ofExcept fun _ hw => op.apply_alike (M.values_mono hw hv)⟩
  | @binaryLeft _ op l r =>
    obtain ⟨hl, hr⟩ := List.forall_mem_append.1 hframes
    refine ⟨w, _, n, hle, .binaryLeft, .expression hl, hmn, fun w₂ hw₂ hy => ?_⟩
    refine hy.bind fun w₃ hw₃ v v' hv => ?_
    refine ((Expr.eval_mirrors hc r hr).mono (le_trans hw₂ hw₃)).bind fun w₄ hw₄ u u' hu => ?_
    exact .ofExcept fun w₅ hw₅ =>
      op.apply_alike (M.values_mono (le_trans hw₄ hw₅) hv) (M.values_mono hw₅ hu)
  | @binaryRight _ op l r v _ m₁ hends =>
    obtain ⟨hl, hr⟩ := List.forall_mem_append.1 hframes
    obtain ⟨w₁, v', n₁, hw₁, hends', hmn₁, hv⟩ := (Expr.eval_mirrors hc l hl).ok_at hmn hends
    refine ⟨w₁, _, n₁, hw₁, .binaryRight hends', .expression (M.frames_mono_all hw₁ hr), hmn₁,
      fun w₂ hw₂ hy => .after hends hends' ?_⟩
    exact hy.bind fun w₃ hw₃ u u' hu => .ofExcept fun w₄ hw₄ =>
      op.apply_alike (M.values_mono (le_trans hw₂ (le_trans hw₃ hw₄)) hv) (M.values_mono hw₄ hu)
  | @condition _ e yes no =>
    obtain ⟨he, -, -⟩ := Expr.forall_accesses_cond hframes
    refine ⟨w, _, n, hle, .condition, .expression he, hmn, fun w₂ hw₂ hy => ?_⟩
    rw [Task.eval, Task.eval, Expr.eval_cond, Expr.eval_cond]
    exact hy.bind fun w₃ hw₃ v v' hv =>
      (Expr.branch_mirrors hc hframes hv.truthy_eq).mono (le_trans hw₂ hw₃)
  | @condYes _ e yes no v _ m₁ hends hv =>
    obtain ⟨he, hyes, -⟩ := Expr.forall_accesses_cond hframes
    obtain ⟨w₁, v', n₁, hw₁, hends', hmn₁, hvv'⟩ := (Expr.eval_mirrors hc e he).ok_at hmn hends
    have hv' := mt hvv'.falsy_iff.1 hv
    refine ⟨w₁, _, n₁, hw₁, .condYes hends' hv', .block (M.frames_mono_all hw₁ hyes), hmn₁,
      fun w₂ hw₂ hy => ?_⟩
    rw [Task.eval, Task.eval, Expr.eval_cond, Expr.eval_cond]
    refine .after hends hends' ?_
    rw [Expr.branch_of_not_falsy hv, Expr.branch_of_not_falsy hv']
    exact hy
  | @condNo _ e yes no v _ m₁ hends hv =>
    obtain ⟨he, -, hno⟩ := Expr.forall_accesses_cond hframes
    obtain ⟨w₁, v', n₁, hw₁, hends', hmn₁, hvv'⟩ := (Expr.eval_mirrors hc e he).ok_at hmn hends
    have hv' := hvv'.falsy_iff.2 hv
    refine ⟨w₁, _, n₁, hw₁, .condNo hends' hv', .block (M.frames_mono_all hw₁ (hno no rfl)), hmn₁,
      fun w₂ hw₂ hy => ?_⟩
    rw [Task.eval, Task.eval, Expr.eval_cond, Expr.eval_cond]
    refine .after hends hends' ?_
    rw [Expr.branch_of_falsy hv, Expr.branch_of_falsy hv']
    exact hy
  | @callee _ f es =>
    obtain ⟨hf, hes⟩ := List.forall_mem_append.1 hframes
    refine ⟨w, _, n, hle, .callee, .expression hf, hmn, fun w₂ hw₂ hy => ?_⟩
    refine hy.bind fun w₃ hw₃ v v' hv => ?_
    have hlist := (Expr.evalList_mirrors hc es hes).mono (le_trans hw₂ hw₃)
    refine hlist.bind fun w₄ hw₄ vs vs' hvs => ?_
    exact hc w₄ v v' vs vs' (M.values_mono hw₄ hv) hvs
  | @arguments _ f es v _ m₁ hends =>
    obtain ⟨hf, hes⟩ := List.forall_mem_append.1 hframes
    obtain ⟨w₁, v', n₁, hw₁, hends', hmn₁, hv⟩ := (Expr.eval_mirrors hc f hf).ok_at hmn hends
    refine ⟨w₁, _, n₁, hw₁, .arguments hends', .expressions (M.frames_mono_all hw₁ hes), hmn₁,
      fun w₂ hw₂ hy => .after hends hends' ?_⟩
    exact hy.bind fun w₃ hw₃ vs vs' hvs =>
      hc w₃ v v' vs vs' (M.values_mono (le_trans hw₂ hw₃) hv) hvs
  | @application _ f es v vs _ m₁ m₂ hends hlist =>
    obtain ⟨hf, hes⟩ := List.forall_mem_append.1 hframes
    obtain ⟨w₁, v', n₁, hw₁, hends', hmn₁, hv⟩ := (Expr.eval_mirrors hc f hf).ok_at hmn hends
    obtain ⟨w₂, vs', n₂, hw₂, hlist', hmn₂, hvs⟩ :=
      ((Expr.evalList_mirrors hc es hes).mono hw₁).ok_at hmn₁ hlist
    exact ⟨w₂, _, n₂, le_trans hw₁ hw₂, .application hends' hlist',
      .apply (M.values_mono hw₂ hv) hvs, hmn₂, fun w₃ hw₃ hy =>
      .after hends hends' (.after hlist hlist' hy)⟩
  | @indexLeft _ l e =>
    obtain ⟨hl, hi⟩ := List.forall_mem_append.1 hframes
    refine ⟨w, _, n, hle, .indexLeft, .expression hl, hmn, fun w₂ hw₂ hy => ?_⟩
    refine hy.bind fun w₃ hw₃ v v' hv => ?_
    refine ((Expr.eval_mirrors hc e hi).mono (le_trans hw₂ hw₃)).bind fun w₄ hw₄ u u' hu => ?_
    exact .ofExcept fun w₅ hw₅ =>
      Value.index_alike (M.values_mono (le_trans hw₄ hw₅) hv) (M.values_mono hw₅ hu)
  | @indexRight _ l e v _ m₁ hends =>
    obtain ⟨hl, hi⟩ := List.forall_mem_append.1 hframes
    obtain ⟨w₁, v', n₁, hw₁, hends', hmn₁, hv⟩ := (Expr.eval_mirrors hc l hl).ok_at hmn hends
    refine ⟨w₁, _, n₁, hw₁, .indexRight hends', .expression (M.frames_mono_all hw₁ hi), hmn₁,
      fun w₂ hw₂ hy => .after hends hends' ?_⟩
    exact hy.bind fun w₃ hw₃ u u' hu => .ofExcept fun w₄ hw₄ =>
      Value.index_alike (M.values_mono (le_trans hw₂ (le_trans hw₃ hw₄)) hv) (M.values_mono hw₄ hu)

/-- Lists of expressions do. -/
theorem alike_expressions {es : List (Expr ι)} (h : Opens limit ⟨.expressions a es, m⟩ i y)
    (hframes : ∀ access ∈ Expr.accessesList es, M.Frames w a b access)
    (hmn : M.Machines w m n) :
    M.OpensAlike w (.expressions a es) (.expressions b es) m n i y := by
  have hc := call_mirrors M
  cases h with
  | @head _ e es =>
    obtain ⟨he, hes⟩ := List.forall_mem_append.1 hframes
    refine ⟨w, _, n, le_refl w, .head, .expression he, hmn, fun w₂ hw₂ hy => ?_⟩
    refine hy.bind fun w₃ hw₃ v v' hv => ?_
    have hlist := (Expr.evalList_mirrors hc es hes).mono (le_trans hw₂ hw₃)
    refine hlist.bind fun w₄ hw₄ vs vs' hvs => ?_
    exact .pure fun w₅ hw₅ =>
      .cons (M.values_mono (le_trans hw₄ hw₅) hv) (M.valueLists_mono hw₅ hvs)
  | @tail _ e es v _ m₁ hends =>
    obtain ⟨he, hes⟩ := List.forall_mem_append.1 hframes
    obtain ⟨w₁, v', n₁, hw₁, hends', hmn₁, hv⟩ := (Expr.eval_mirrors hc e he).ok_at hmn hends
    refine ⟨w₁, _, n₁, hw₁, .tail hends', .expressions (M.frames_mono_all hw₁ hes), hmn₁,
      fun w₂ hw₂ hy => .after hends hends' ?_⟩
    exact hy.bind fun w₃ hw₃ vs vs' hvs => .pure fun w₄ hw₄ =>
      .cons (M.values_mono (le_trans hw₂ (le_trans hw₃ hw₄)) hv) (M.valueLists_mono hw₄ hvs)

/-- Statements do. -/
theorem alike_statement {s : Stmt ι} (h : Opens limit ⟨.statement a s, m⟩ i y)
    (hframes : ∀ access ∈ s.accesses, M.Frames w a b access) (hmn : M.Machines w m n) :
    M.OpensAlike w (.statement a s) (.statement b s) m n i y := by
  cases h with
  | expr => exact ⟨w, _, n, le_refl w, .expr, .expression hframes, hmn, fun _ _ hy => hy⟩
  | ret =>
    exact ⟨w, _, n, le_refl w, .ret, .expression hframes, hmn, fun _ _ hy =>
      hy.bind fun _ _ _ _ hv => .returned fun _ hw => M.values_mono hw hv⟩
  | bind =>
    obtain ⟨hx, he⟩ := List.forall_mem_cons.1 hframes
    refine ⟨w, _, n, le_refl w, .bind, .expression he, hmn, fun w₂ hw₂ hy => ?_⟩
    refine hy.landed.bind fun w₃ hw₃ v v' hv => ?_
    have hx := M.frames_mono (le_trans hw₂ hw₃) hx
    refine (Mirror.Mirrors.bindName hx hv).bind fun w₄ hw₄ _ _ _ => ?_
    exact .pure fun w₅ hw₅ => M.values_mono (le_trans hw₄ hw₅) hv

/-- Blocks do. -/
theorem alike_block {ss : Block ι} (h : Opens limit ⟨.block a ss, m⟩ i y)
    (hframes : ∀ access ∈ Stmt.accessesList ss, M.Frames w a b access)
    (hmn : M.Machines w m n) : M.OpensAlike w (.block a ss) (.block b ss) m n i y := by
  have hc := call_mirrors M
  cases h with
  | @blockFirst _ s ss =>
    obtain ⟨hs, hss⟩ := List.forall_mem_append.1 hframes
    exact ⟨w, _, n, le_refl w, .blockFirst, .statement hs, hmn, fun w₂ hw₂ hy =>
      hy.bind fun w₃ hw₃ v v' hv => Stmt.evalFrom_mirrors hc ss hss (le_trans hw₂ hw₃) hv⟩
  | @blockNext _ s u ss v _ m₁ hends =>
    obtain ⟨hs, hss⟩ := List.forall_mem_append.1 hframes
    obtain ⟨w₁, v', n₁, hw₁, hends', hmn₁, -⟩ := (Stmt.eval_mirrors hc s hs).ok_at hmn hends
    exact ⟨w₁, _, n₁, hw₁, .blockNext hends', .block (M.frames_mono_all hw₁ hss), hmn₁,
      fun _ _ hy => .after hends hends' hy⟩

/-- Programs do. -/
theorem alike_program {ss : List (Stmt ι)} (h : Opens limit ⟨.program a ss, m⟩ i y)
    (hframes : ∀ access ∈ Stmt.accessesList ss, M.Frames w a b access)
    (hmn : M.Machines w m n) : M.OpensAlike w (.program a ss) (.program b ss) m n i y := by
  have hc := call_mirrors M
  cases h with
  | @programFirst _ s ss =>
    obtain ⟨hs, hss⟩ := List.forall_mem_append.1 hframes
    refine ⟨w, _, n, le_refl w, .programFirst, .statement hs, hmn, fun w₂ hw₂ hy => ?_⟩
    rw [Task.eval, Task.eval, Program.eval_eq_landed, Program.eval_eq_landed]
    exact Mirror.MirrorsAt.landed (hy.bind fun w₃ hw₃ v v' hv =>
      Stmt.evalFrom_mirrors hc ss hss (le_trans hw₂ hw₃) hv)
  | @programNext _ s u ss v _ m₁ hends =>
    obtain ⟨hs, hss⟩ := List.forall_mem_append.1 hframes
    obtain ⟨w₁, v', n₁, hw₁, hends', hmn₁, -⟩ := (Stmt.eval_mirrors hc s hs).ok_at hmn hends
    exact ⟨w₁, _, n₁, hw₁, .programNext hends', .program (M.frames_mono_all hw₁ hss), hmn₁,
      fun _ _ hy => .after (EvalM.exec_outcome_of hends) (EvalM.exec_outcome_of hends') hy⟩

/-- And so do applications, their bodies in new frames. -/
theorem alike_apply {v v' : Value ι} {vs vs' : List (Value ι)}
    (h : Opens limit ⟨.apply v vs, m⟩ i y) (hv : M.Values w v v') (hvs : M.ValueLists w vs vs')
    (hmn : M.Machines w m n) : M.OpensAlike w (.apply v vs) (.apply v' vs') m n i y := by
  cases h with
  | @body f a _ _ hlen hadmits =>
    cases hv with
    | closure hcaptured =>
      obtain ⟨w₁, hw₁, hmn₁, hframes⟩ := M.enter hmn hcaptured hvs
      have hlen' := hlen.trans hvs.length_eq
      have hadmits' := (M.admits_iff hmn).2 hadmits
      refine ⟨w₁, _, _, hw₁, .body hlen' hadmits', .block hframes, hmn₁, fun w₂ hw₂ hy => ?_⟩
      intro r m' hexec
      cases exec_call_iff.1 hexec with
      | arity hne => exact absurd hlen hne
      | tooDeep _ hlimit hle => exact absurd hadmits (not_admits_iff.2 ⟨_, hlimit, hle⟩)
      | notCallable hf _ => exact absurd rfl hf
      | closure _ _ hbody =>
        obtain ⟨w₃, q, n₃, hw₃, hbody', hmn₃, hoq⟩ := hy _ _ hbody
        exact ⟨w₃, _, _, hw₃, exec_call_iff.2 (.closure hlen' hadmits' hbody'), M.leave hmn₃,
          (Outcome.Alike.result hoq).mapError⟩

end Moment.Opens

/-! ## The whole course -/

namespace Moment

variable {M : Mirror ι W limit} {w : W} {m n : Machine ι}

/-- Alike moments open alike moments at the same step. -/
theorem Opens.alike {k : Kind} {t t' : Task ι k} {i : Step} {y : Moment ι}
    (h : Opens limit ⟨t, m⟩ i y) (ht : M.Tasks w t t') (hmn : M.Machines w m n) :
    M.OpensAlike w t t' m n i y := by
  cases ht with
  | expression hframes => exact h.alike_expression hframes hmn
  | expressions hframes => exact h.alike_expressions hframes hmn
  | statement hframes => exact h.alike_statement hframes hmn
  | block hframes => exact h.alike_block hframes hmn
  | program hframes => exact h.alike_program hframes hmn
  | apply hv hvs => exact h.alike_apply hv hvs hmn

/-- What comes about in the course of the first of two alike moments comes about in the
course of the second one, at the same place and alike; and the two end alike, in a later
world, where those do. -/
theorem Course.alike {x y : Moment ι} {place : Place} (h : x.Course limit place y)
    {t' : Task ι x.kind} (ht : M.Tasks w x.task t') (hmn : M.Machines w x.machine n) :
    ∃ (w₁ : W) (u : Task ι y.kind) (n₁ : Machine ι), w ≤ w₁ ∧
      Course limit ⟨t', n⟩ place ⟨u, n₁⟩ ∧ M.Tasks w₁ y.task u ∧ M.Machines w₁ y.machine n₁ ∧
      ∀ w₂, w₁ ≤ w₂ →
        M.MirrorsAt w₂ (M.Answers y.kind) (y.task.eval limit) (u.eval limit) y.machine n₁ →
        M.MirrorsAt w₂ (M.Answers x.kind) (x.task.eval limit) (t'.eval limit) x.machine n := by
  induction h generalizing w n with
  | here => exact ⟨w, t', n, le_refl w, .here, ht, hmn, fun _ _ hy => hy⟩
  | inside hopens _ ih =>
    obtain ⟨w₁, u₁, n₁, hw₁, hopens', ht₁, hmn₁, hback₁⟩ := hopens.alike ht hmn
    obtain ⟨w₂, u₂, n₂, hw₂, hcourse, ht₂, hmn₂, hback₂⟩ := ih ht₁ hmn₁
    exact ⟨w₂, u₂, n₂, le_trans hw₁ hw₂, .inside hopens' hcourse, ht₂, hmn₂, fun w₃ hw₃ hy =>
      hback₁ w₃ (le_trans hw₂ hw₃) (hback₂ w₃ hw₃ hy)⟩

end Moment

end Monkey
