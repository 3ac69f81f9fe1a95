import Mathlib.Order.Defs.PartialOrder
import Monkey.Proofs.Application
import Monkey.Proofs.Likeness
import Monkey.Syntax.Accesses

/-!
# Monkey — one run mirrors another

Two runs of the same tree go alike where everything they meet is alike: the machines,
the frames in hand, the frames that closures have captured. What is alike may grow as
frames are made, so it is indexed by a world, and what has been alike stays so in later
worlds. `Mirror` says what is asked of such a relation: that the two machines answer
alike whatever a tree asks of its frame, and that the start of a body leads to a world
in which the two new frames answer alike again. Then whole evaluations go alike
(`Expr.eval_mirrors` and its companions, `call_mirrors`): where the first one finishes,
so does the second, with the same error or alike values.
-/

namespace Monkey

variable {ι : Type}

/-! ## The relation -/

/-- What is alike in two runs under a limit, world by world, and why it stays so. -/
structure Mirror (ι W : Type) [Preorder W] (limit : Option Nat) where
  /-- The machines are alike. -/
  Machines : W → Machine ι → Machine ι → Prop
  /-- A function literal has captured frames that are alike. -/
  Closures : W → FnLiteral ι → FrameId → FrameId → Prop
  /-- An access is answered alike in two frames. -/
  Frames : W → FrameId → FrameId → Access ι → Prop
  closures_mono {w w' : W} {f : FnLiteral ι} {a b : FrameId} :
    w ≤ w' → Closures w f a b → Closures w' f a b
  frames_mono {w w' : W} {a b : FrameId} {access : Access ι} :
    w ≤ w' → Frames w a b access → Frames w' a b access
  read {w : W} {m n : Machine ι} {a b : FrameId} {x : String} :
    Machines w m n → Frames w a b (.read x) →
      Option.Rel (Value.Alike (Closures w)) (m.store.lookup a x) (n.store.lookup b x)
  write {w : W} {m n : Machine ι} {a b : FrameId} {x : String} {v v' : Value ι} :
    Machines w m n → Frames w a b (.write x) → v.Alike (Closures w) v' →
      ∃ w', w ≤ w' ∧ Machines w' (m.bind a x v) (n.bind b x v')
  capture {w : W} {a b : FrameId} {f : FnLiteral ι} :
    Frames w a b (.capture f) → Closures w f a b
  print {w : W} {m n : Machine ι} (text : String) :
    Machines w m n → Machines w { m with printer := m.printer.append text }
      { n with printer := n.printer.append text }
  admits_iff {w : W} {m n : Machine ι} :
    Machines w m n → (Admits limit n.depth ↔ Admits limit m.depth)
  enter {w : W} {m n : Machine ι} {f : FnLiteral ι} {a b : FrameId} {args args' : List (Value ι)} :
    Machines w m n → Closures w f a b → List.Forall₂ (Value.Alike (Closures w)) args args' →
      ∃ w', w ≤ w' ∧ Machines w' (m.enter f a args) (n.enter f b args') ∧
        ∀ access ∈ Stmt.accessesList f.body, Frames w' m.store.next n.store.next access
  leave {w : W} {m n : Machine ι} : Machines w m n → Machines w m.leave n.leave

/-- Two interrupts are alike: the same error, or `return`s of alike values. -/
inductive Interrupt.Alike (C : FnLiteral ι → FrameId → FrameId → Prop) :
    Interrupt ι → Interrupt ι → Prop
  | error (e : EvalError) : Alike C (.error e) (.error e)
  | returned {v w : Value ι} : v.Alike C w → Alike C (.returned v) (.returned w)

/-- Two outcomes are alike: alike interrupts, or alike values. -/
abbrev Outcome.Alike (C : FnLiteral ι → FrameId → FrameId → Prop) :
    Outcome ι → Outcome ι → Prop :=
  ResultsAlike (Interrupt.Alike C) (Value.Alike C)

theorem ResultsAlike.mapError {β γ : Type} {C : FnLiteral ι → FrameId → FrameId → Prop}
    {V : β → γ → Prop} {r : Except EvalError β} {q : Except EvalError γ}
    (h : ResultsAlike Eq V r q) :
    ResultsAlike (Interrupt.Alike C) V (r.mapError .error) (q.mapError .error) := by
  cases h with
  | error he =>
    subst he
    exact .error (.error _)
  | ok hv => exact .ok hv

/-- At the boundary of a `return` alike outcomes are alike results. -/
theorem Outcome.Alike.result {C : FnLiteral ι → FrameId → FrameId → Prop} {o o' : Outcome ι}
    (h : o.Alike C o') : ResultsAlike Eq (Value.Alike C) o.result o'.result := by
  cases h with
  | error hi =>
    cases hi with
    | error e => exact .error rfl
    | returned hv => exact .ok hv
  | ok hv => exact .ok hv

namespace Mirror

variable {W : Type} [Preorder W] {limit : Option Nat} (M : Mirror ι W limit)

/-- Two values are alike in a world. -/
abbrev Values (w : W) : Value ι → Value ι → Prop := Value.Alike (M.Closures w)

/-- Two lists of values are alike in a world, one by one. -/
abbrev ValueLists (w : W) : List (Value ι) → List (Value ι) → Prop := List.Forall₂ (M.Values w)

theorem values_mono {w w' : W} (h : w ≤ w') {v v' : Value ι} (hv : M.Values w v v') :
    M.Values w' v v' :=
  hv.mono fun _ _ _ => M.closures_mono h

theorem valueLists_mono {w w' : W} (h : w ≤ w') {vs vs' : List (Value ι)}
    (hvs : M.ValueLists w vs vs') : M.ValueLists w' vs vs' :=
  Value.Alike.mono_list (fun _ _ _ => M.closures_mono h) hvs

/-- Where the first evaluation finishes on its machine, the second one does so on its
own, with an alike result, on a machine that is alike in some world from `w` on. -/
def MirrorsAt {β γ : Type} (w : W) (V : W → β → γ → Prop) (x : EvalM ι β) (y : EvalM ι γ)
    (m n : Machine ι) : Prop :=
  ∀ r m', x.exec m = some (r, m') → ∃ w' q n', w ≤ w' ∧ y.exec n = some (q, n') ∧
    M.Machines w' m' n' ∧ ResultsAlike (Interrupt.Alike (M.Closures w')) (V w') r q

/-- From a world on, the second evaluation mirrors the first one: on alike machines it
finishes wherever the first one does, with alike results, on machines that are alike
in some later world. -/
def Mirrors {β γ : Type} (w : W) (V : W → β → γ → Prop) (x : EvalM ι β) (y : EvalM ι γ) : Prop :=
  ∀ w₁, w ≤ w₁ → ∀ m n, M.Machines w₁ m n → ∀ r m', x.exec m = some (r, m') →
    ∃ w' q n', w₁ ≤ w' ∧ y.exec n = some (q, n') ∧ M.Machines w' m' n' ∧
      ResultsAlike (Interrupt.Alike (M.Closures w')) (V w') r q

variable {M}

namespace MirrorsAt

variable {w : W} {m m₁ n n₁ : Machine ι} {β γ δ κ : Type} {V : W → β → γ → Prop}
variable {U : W → δ → κ → Prop} {x : EvalM ι β} {y : EvalM ι γ} {f : β → EvalM ι δ}
variable {g : γ → EvalM ι κ}

/-- A sequence ends alike if its first part does and what follows mirrors each other. -/
theorem bind (hx : M.MirrorsAt w V x y m n)
    (hf : ∀ w', w ≤ w' → ∀ b c, V w' b c → M.Mirrors w' U (f b) (g c)) :
    M.MirrorsAt w U (x >>= f) (y >>= g) m n := by
  intro r m' h
  rcases EvalM.exec_bind_eq_some.1 h with ⟨b, m₁, h₁, h₂⟩ | ⟨i, h₁, rfl⟩
  · obtain ⟨w₁, q, n₁, hle, hy, hmn₁, hq⟩ := hx _ _ h₁
    cases hq with
    | ok hbc =>
      obtain ⟨w₂, q, n₂, hle₂, hg, hmn₂, hq⟩ :=
        hf w₁ hle _ _ hbc w₁ (le_refl w₁) m₁ n₁ hmn₁ _ _ h₂
      exact ⟨w₂, q, n₂, le_trans hle hle₂, (EvalM.exec_bind_of_ok hy g).trans hg, hmn₂, hq⟩
  · obtain ⟨w₁, q, n₁, hle, hy, hmn₁, hq⟩ := hx _ _ h₁
    cases hq with
    | error hi => exact ⟨w₁, _, n₁, hle, EvalM.exec_bind_of_error hy g, hmn₁, .error hi⟩

/-- A sequence whose first part has ended with a value ends as the rest does. -/
theorem after {b : β} {c : γ} (hx : x.exec m = some (.ok b, m₁)) (hy : y.exec n = some (.ok c, n₁))
    (h : M.MirrorsAt w U (f b) (g c) m₁ n₁) : M.MirrorsAt w U (x >>= f) (y >>= g) m n := by
  unfold MirrorsAt
  rw [EvalM.exec_bind_of_ok hx f, EvalM.exec_bind_of_ok hy g]
  exact h

theorem landed {x y : EvalM ι (Value ι)} (h : M.MirrorsAt w M.Values x y m n) :
    M.MirrorsAt w M.Values x.landed y.landed m n := by
  intro r m' hx
  rw [EvalM.exec_landed, Option.map_eq_some_iff] at hx
  obtain ⟨⟨o, m₁⟩, hx, heq⟩ := hx
  cases heq
  obtain ⟨w₁, q, n₁, hle, hy, hmn₁, hoq⟩ := h _ _ hx
  exact ⟨w₁, _, n₁, hle, EvalM.exec_landed_of hy, hmn₁, (Outcome.Alike.result hoq).mapError⟩

end MirrorsAt

namespace Mirrors

variable {w : W} {β γ δ κ : Type} {V : W → β → γ → Prop} {U : W → δ → κ → Prop}

theorem mono {w' : W} {x : EvalM ι β} {y : EvalM ι γ} (hle : w ≤ w') (h : M.Mirrors w V x y) :
    M.Mirrors w' V x y :=
  fun w₁ hle₁ => h w₁ (le_trans hle hle₁)

/-- Evaluations that leave the machine alone mirror each other if their results are
alike in every later world. -/
theorem of_pure {x : EvalM ι β} {y : EvalM ι γ}
    (h : ∀ w₁ m n, w ≤ w₁ → M.Machines w₁ m n → ∃ r q, x.exec m = some (r, m) ∧
      y.exec n = some (q, n) ∧ ResultsAlike (Interrupt.Alike (M.Closures w₁)) (V w₁) r q) :
    M.Mirrors w V x y := by
  intro w₁ hle m n hmn r' m' hx
  obtain ⟨r, q, hr, hq, hrq⟩ := h w₁ m n hle hmn
  rw [hr] at hx
  cases hx
  exact ⟨w₁, q, n, le_refl _, hq, hmn, hrq⟩

theorem pure {b : β} {c : γ} (h : ∀ w', w ≤ w' → V w' b c) :
    M.Mirrors w V (pure b : EvalM ι β) (pure c) :=
  of_pure fun w₁ _ _ hle _ => ⟨_, _, rfl, rfl, .ok (h w₁ hle)⟩

theorem ofExcept {r : Except EvalError β} {q : Except EvalError γ}
    (h : ∀ w', w ≤ w' → ResultsAlike Eq (V w') r q) :
    M.Mirrors w V (EvalM.ofExcept r) (EvalM.ofExcept q) :=
  of_pure fun w₁ m n hle _ =>
    ⟨_, _, EvalM.exec_ofExcept m r, EvalM.exec_ofExcept n q, (h w₁ hle).mapError⟩

theorem bind {x : EvalM ι β} {y : EvalM ι γ} {f : β → EvalM ι δ} {g : γ → EvalM ι κ}
    (hx : M.Mirrors w V x y) (hf : ∀ w', w ≤ w' → ∀ b c, V w' b c → M.Mirrors w' U (f b) (g c)) :
    M.Mirrors w U (x >>= f) (y >>= g) :=
  fun w₁ hle m n hmn => MirrorsAt.bind (hx w₁ hle m n hmn) fun w₂ hle₂ =>
    hf w₂ (le_trans hle hle₂)

theorem landed {x y : EvalM ι (Value ι)} (h : M.Mirrors w M.Values x y) :
    M.Mirrors w M.Values x.landed y.landed :=
  fun w₁ hle m n hmn => MirrorsAt.landed (h w₁ hle m n hmn)

theorem returned {v v' : Value ι} (h : ∀ w', w ≤ w' → M.Values w' v v') :
    M.Mirrors w M.Values (throw (.returned v)) (throw (.returned v')) :=
  of_pure fun w₁ _ _ hle _ => ⟨_, _, rfl, rfl, .error (.returned (h w₁ hle))⟩

theorem identifier {a b : FrameId} {x : String} (h : M.Frames w a b (.read x)) :
    M.Mirrors w M.Values (EvalM.identifier a x) (EvalM.identifier b x) := by
  refine of_pure fun w₁ m n hle hmn => ?_
  refine ⟨_, _, EvalM.exec_identifier m a x, EvalM.exec_identifier n b x, ?_⟩
  have hread := M.read hmn (M.frames_mono hle h)
  generalize m.store.lookup a x = found, n.store.lookup b x = found' at hread ⊢
  cases hread with
  | some hv => exact .ok hv
  | none =>
    cases Builtin.ofName? x with
    | some b => exact .ok (.builtin b)
    | none => exact .error (.error _)

theorem bindName {a b : FrameId} {x : String} {v v' : Value ι} (h : M.Frames w a b (.write x))
    (hv : M.Values w v v') :
    M.Mirrors w (fun _ _ _ => True) (EvalM.bindName a x v) (EvalM.bindName b x v') := by
  intro w₁ hle m n hmn r m' hx
  cases hx
  obtain ⟨w₂, hle₂, hmn₂⟩ := M.write hmn (M.frames_mono hle h) (M.values_mono hle hv)
  exact ⟨w₂, _, _, hle₂, rfl, hmn₂, .ok trivial⟩

end Mirrors

variable (M) in
/-- The calls of alike values with alike arguments mirror each other. -/
def CallsMirror (c d : Value ι → List (Value ι) → EvalM ι (Value ι)) : Prop :=
  ∀ w v v' vs vs', M.Values w v v' → M.ValueLists w vs vs' →
    M.Mirrors w M.Values (c v vs) (d v' vs')

/-- It is enough to look at each call that finishes, in the world in which it
begins. -/
theorem callsMirror_of {c d : Value ι → List (Value ι) → EvalM ι (Value ι)}
    (h : ∀ v vs m r, (c v vs).exec m = some r → ∀ w v' vs' n, M.Values w v v' →
      M.ValueLists w vs vs' → M.Machines w m n → ∃ w' q n', w ≤ w' ∧
        (d v' vs').exec n = some (q, n') ∧ M.Machines w' r.2 n' ∧
        Outcome.Alike (M.Closures w') r.1 q) :
    M.CallsMirror c d :=
  fun _ v v' vs vs' hv hvs w₁ hw₁ m n hmn o m' hexec => h v vs m (o, m') hexec w₁ v' vs' n
    (M.values_mono hw₁ hv) (M.valueLists_mono hw₁ hvs) hmn

end Mirror

/-! ## Trees -/

section Trees

variable {W : Type} [Preorder W] {limit : Option Nat} {M : Mirror ι W limit} {w : W}
variable {c d : Value ι → List (Value ι) → EvalM ι (Value ι)} {a b : FrameId}

mutual

/-- The evaluations of an expression mirror each other where its accesses are answered
alike and calls mirror each other. -/
theorem Expr.eval_mirrors (hc : M.CallsMirror c d) :
    ∀ e : Expr ι, (∀ access ∈ e.accesses, M.Frames w a b access) →
      M.Mirrors w M.Values (e.eval c a) (e.eval d b)
  | .ident x, h => .identifier (h _ List.mem_cons_self)
  | .int n, _ => .pure fun _ _ => .int n
  | .str s, _ => .pure fun _ _ => .str s
  | .bool b, _ => .pure fun _ _ => .bool b
  | .fn f, h => .pure fun _ hle =>
      .closure (M.closures_mono hle (M.capture (h _ List.mem_cons_self)))
  | .array es, h => (Expr.evalList_mirrors hc es h).bind fun _ _ _ _ hvs =>
      .pure fun _ hle => .array (M.valueLists_mono hle hvs)
  | .unary op e, h => (Expr.eval_mirrors hc e h).bind fun _ _ _ _ hv =>
      .ofExcept fun _ hle => op.apply_alike (M.values_mono hle hv)
  | .binary op l r, h => by
    obtain ⟨hl, hr⟩ := List.forall_mem_append.1 h
    refine (Expr.eval_mirrors hc l hl).bind fun w₁ hw₁ v v' hv => ?_
    refine ((Expr.eval_mirrors hc r hr).mono hw₁).bind fun w₂ hw₂ u u' hu => ?_
    exact .ofExcept fun w₃ hw₃ =>
      op.apply_alike (M.values_mono (le_trans hw₂ hw₃) hv) (M.values_mono hw₃ hu)
  | .cond e yes none, h => by
    obtain ⟨he, hyes⟩ := List.forall_mem_append.1 h
    refine (Expr.eval_mirrors hc e he).bind fun w₁ hw₁ v v' hv => ?_
    rw [hv.truthy_eq]
    split
    · exact Stmt.evalFrom_mirrors hc yes hyes hw₁ .null
    · exact .pure fun _ _ => .null
  | .cond e yes (some no), h => by
    obtain ⟨he, h⟩ := List.forall_mem_append.1 h
    obtain ⟨hyes, hno⟩ := List.forall_mem_append.1 h
    refine (Expr.eval_mirrors hc e he).bind fun w₁ hw₁ v v' hv => ?_
    rw [hv.truthy_eq]
    split
    · exact Stmt.evalFrom_mirrors hc yes hyes hw₁ .null
    · exact Stmt.evalFrom_mirrors hc no hno hw₁ .null
  | .call f es, h => by
    obtain ⟨hf, hes⟩ := List.forall_mem_append.1 h
    refine (Expr.eval_mirrors hc f hf).bind fun w₁ hw₁ v v' hv => ?_
    refine ((Expr.evalList_mirrors hc es hes).mono hw₁).bind fun w₂ hw₂ vs vs' hvs => ?_
    exact hc w₂ v v' vs vs' (M.values_mono hw₂ hv) hvs
  | .index l i, h => by
    obtain ⟨hl, hi⟩ := List.forall_mem_append.1 h
    refine (Expr.eval_mirrors hc l hl).bind fun w₁ hw₁ v v' hv => ?_
    refine ((Expr.eval_mirrors hc i hi).mono hw₁).bind fun w₂ hw₂ u u' hu => ?_
    exact .ofExcept fun w₃ hw₃ =>
      Value.index_alike (M.values_mono (le_trans hw₂ hw₃) hv) (M.values_mono hw₃ hu)
termination_by structural e => e

/-- So do those of a list of expressions. -/
theorem Expr.evalList_mirrors (hc : M.CallsMirror c d) :
    ∀ es : List (Expr ι), (∀ access ∈ Expr.accessesList es, M.Frames w a b access) →
      M.Mirrors w M.ValueLists (Expr.evalList c a es) (Expr.evalList d b es)
  | [], _ => .pure fun _ _ => .nil
  | e :: es, h => by
    obtain ⟨he, hes⟩ := List.forall_mem_append.1 h
    refine (Expr.eval_mirrors hc e he).bind fun w₁ hw₁ v v' hv => ?_
    refine ((Expr.evalList_mirrors hc es hes).mono hw₁).bind fun w₂ hw₂ vs vs' hvs => ?_
    exact .pure fun w₃ hw₃ =>
      .cons (M.values_mono (le_trans hw₂ hw₃) hv) (M.valueLists_mono hw₃ hvs)
termination_by structural es => es

/-- And those of a statement. -/
theorem Stmt.eval_mirrors (hc : M.CallsMirror c d) :
    ∀ s : Stmt ι, (∀ access ∈ s.accesses, M.Frames w a b access) →
      M.Mirrors w M.Values (s.eval c a) (s.eval d b)
  | .bind x e, h => by
    obtain ⟨hx, he⟩ := List.forall_mem_cons.1 h
    refine (Expr.eval_mirrors hc e he).landed.bind fun w₁ hw₁ v v' hv => ?_
    refine (Mirror.Mirrors.bindName (M.frames_mono hw₁ hx) hv).bind fun w₂ hw₂ _ _ _ => ?_
    exact .pure fun w₃ hw₃ => M.values_mono (le_trans hw₂ hw₃) hv
  | .ret e, h => (Expr.eval_mirrors hc e h).bind fun _ _ _ _ hv =>
      .returned fun _ hle => M.values_mono hle hv
  | .expr e, h => Expr.eval_mirrors hc e h
termination_by structural s => s

/-- And those of statements in order, from values so far that are alike in a later
world. -/
theorem Stmt.evalFrom_mirrors (hc : M.CallsMirror c d) :
    ∀ ss : List (Stmt ι), (∀ access ∈ Stmt.accessesList ss, M.Frames w a b access) →
      ∀ {w' : W} {last last' : Value ι}, w ≤ w' → M.Values w' last last' →
        M.Mirrors w' M.Values (Stmt.evalFrom c a last ss) (Stmt.evalFrom d b last' ss)
  | [], _, _, _, _, _, hlast => .pure fun _ hle => M.values_mono hle hlast
  | s :: ss, h, _, _, _, hw', _ => by
    obtain ⟨hs, hss⟩ := List.forall_mem_append.1 h
    exact ((Stmt.eval_mirrors hc s hs).mono hw').bind fun w₁ hw₁ v v' hv =>
      Stmt.evalFrom_mirrors hc ss hss (le_trans hw' hw₁) hv
termination_by structural ss => ss

end

/-- The evaluations of a block mirror each other. -/
theorem Block.eval_mirrors (hc : M.CallsMirror c d) (block : Block ι)
    (h : ∀ access ∈ Stmt.accessesList block, M.Frames w a b access) :
    M.Mirrors w M.Values (Block.eval c a block) (Block.eval d b block) :=
  Stmt.evalFrom_mirrors hc block h (le_refl w) .null

/-- And those of a program. -/
theorem Program.eval_mirrors (hc : M.CallsMirror c d) (p : Program ι)
    (h : ∀ access ∈ Stmt.accessesList p.statements, M.Frames w a b access) :
    M.Mirrors w M.Values (p.eval c a) (p.eval d b) := by
  rw [Program.eval_eq_landed, Program.eval_eq_landed]
  exact (Block.eval_mirrors hc p.statements h).landed

end Trees

/-! ## Calls -/

section Calls

variable {W : Type} [Preorder W] {limit : Option Nat} {M : Mirror ι W limit}

/-- Calls mirror each other where the bodies of functions do. -/
theorem callWith_mirrors {body body' : FrameId → Block ι → EvalM ι (Value ι)}
    (hbody : ∀ w a b block, (∀ access ∈ Stmt.accessesList block, M.Frames w a b access) →
      M.Mirrors w M.Values (body a block) (body' b block)) :
    M.CallsMirror (callWith limit body) (callWith limit body') := by
  intro w callee callee' args args' hcallee hargs w₁ hw₁ m n hmn o m' h
  replace hcallee := M.values_mono hw₁ hcallee
  replace hargs := M.valueLists_mono hw₁ hargs
  have hlen := hargs.length_eq
  suffices hends : ∃ w₂ q n', w₁ ≤ w₂ ∧ CallEnds limit body' n callee' args' q n' ∧
      M.Machines w₂ m' n' ∧ Outcome.Alike (M.Closures w₂) o q by
    obtain ⟨w₂, q, n', hw₂, hends, hmn', hoq⟩ := hends
    exact ⟨w₂, q, n', hw₂, exec_callWith_iff.2 hends, hmn', hoq⟩
  cases exec_callWith_iff.1 h with
  | arity hne =>
    cases hcallee with
    | closure _ =>
      rw [hlen] at hne ⊢
      exact ⟨w₁, _, n, le_refl _, .arity hne, hmn, .error (.error _)⟩
  | tooDeep heq hlim hle =>
    cases hcallee with
    | closure _ =>
      have hdeep : ¬ Admits limit n.depth :=
        fun had => not_admits_iff.2 ⟨_, hlim, hle⟩ ((M.admits_iff hmn).1 had)
      obtain ⟨most, hlim', hle'⟩ := not_admits_iff.1 hdeep
      cases hlim.symm.trans hlim'
      exact ⟨w₁, _, n, le_refl _, .tooDeep (heq.trans hlen) hlim hle', hmn, .error (.error _)⟩
  | @closure f _ _ o₁ m₁ heq had hexec =>
    cases hcallee with
    | closure hcaptured =>
      obtain ⟨w₂, hw₂, hmn₂, hframes⟩ := M.enter hmn hcaptured hargs
      obtain ⟨w₃, q, n₃, hw₃, hexec', hmn₃, hoq⟩ :=
        hbody w₂ _ _ f.body hframes w₂ (le_refl _) _ _ hmn₂ _ _ hexec
      exact ⟨w₃, _, _, le_trans hw₂ hw₃,
        .closure (heq.trans hlen) ((M.admits_iff hmn).2 had) hexec', M.leave hmn₃,
        (Outcome.Alike.result hoq).mapError⟩
  | @builtin b _ =>
    cases hcallee with
    | builtin _ =>
      have hprint := M.print (b.printed args) hmn
      refine ⟨w₁, _, _, le_refl _, .builtin, ?_, (b.call_alike hargs _ _).mapError⟩
      rw [b.call_snd, b.call_snd, b.printed_alike hargs]
      exact hprint
  | notCallable hf hb =>
    rw [← hcallee.type_eq] at hf hb ⊢
    exact ⟨w₁, _, n, le_refl _, .notCallable hf hb, hmn, .error (.error _)⟩

/-- Calls mirror each other. The induction is on the calls that the first of two calls
goes through. -/
theorem call_mirrors (M : Mirror ι W limit) : M.CallsMirror (call limit) (call limit) := by
  refine Mirror.callsMirror_of (call_induction limit fun c hc => ?_)
  intro callee args m r hexec w callee' args' n hcallee hargs hmn
  have hinner : M.CallsMirror c (call limit) := Mirror.callsMirror_of hc
  have hcalls : M.CallsMirror (callWith limit (Block.eval c))
      (callWith limit (Block.eval (call limit))) :=
    callWith_mirrors fun _ _ _ block h => Block.eval_mirrors hinner block h
  rw [call_eq]
  exact hcalls w _ _ _ _ hcallee hargs w (le_refl w) m n hmn r.1 r.2 hexec

end Calls

end Monkey
