import Monkey.Eval.Approximation
import Monkey.Proofs.CutShort
import Monkey.Proofs.Moments
import Monkey.Proofs.Termination

/-!
# Monkey — a limit only cuts runs short

Two limits are compared, or a limit with none. That the smaller one only cuts
short is `call_cutsShort`. Which runs it cuts short is read off the moments of
the other run: up to the first call too many, the two runs come to the same
moments (`Begins.of_larger_limit`), and a task that comes to a call too many runs
over (`runsOver_iff`).
-/

namespace Monkey

variable {ι : Type}

section Tasks

variable {most : Nat} {limit : Option Nat} {d d₁ : Nat} {k k₁ : Kind} {t : Task ι k}
variable {t₁ : Task ι k₁} {s s₁ : State ι}

/-- Under a limit every task ends. -/
theorem exists_evaluates (most d : Nat) (t : Task ι k) (s : State ι) :
    ∃ r s', Evaluates (some most) d t s r s' := by
  have htotal : (t.eval (some most)).TotalAt d :=
    t.eval_rel (some most) (some most) (EvalM.TotalAt.compatible d) (call_totalAt most d)
  obtain ⟨r, m', hexec, -⟩ := htotal (s.machine d) rfl
  obtain ⟨s', rfl, hev⟩ := t.eval_follows (some most) d s r m' hexec
  exact ⟨r, s', hev⟩

/-- A task that ends under a limit, and not because calls are too deep, ends
alike under a larger limit. -/
theorem Evaluates.of_limit_le (hle : ∀ n, limit = some n → most ≤ n)
    {r : Except (Interrupt ι) (k.Answer ι)} {s' : State ι} (h : Evaluates (some most) d t s r s')
    (hr : ∀ n, ¬ Exceeds n r) : Evaluates limit d t s r s' := by
  have hcuts : (t.eval (some most)).CutsShort most (t.eval limit) :=
    t.eval_rel (some most) limit (EvalM.CutsShort.compatible most) (call_cutsShort hle)
  exact evaluates_iff_exec.2 (hcuts.alike _ _ _ h.exec hr)

/-! ## The moments of the larger run -/

/-- A task that calls a function with as many arguments as it has parameters. -/
inductive Task.CallsFunction : {k : Kind} → Task ι k → Prop
  | closure {f : FnLiteral ι} {env : FrameId} {args : List (Value ι)} :
      f.parameters.length = args.length → CallsFunction (.apply (.closure f env) args)

/-- Calls are too deep where a function is called, and nowhere else. -/
theorem raises_tooDeep_iff {s' : State ι} {n : Nat} :
    Raises limit d t s (.tooDeep n) s' ↔ t.CallsFunction ∧ limit = some n ∧ n ≤ d ∧ s' = s := by
  constructor
  · intro h
    generalize herr : EvalError.tooDeep n = err at h
    cases h with
    | unary _ hop =>
      exact absurd (UnaryOp.gives_iff.1 hop).symm (herr ▸ UnaryOp.apply_ne_tooDeep _ _ n)
    | binary _ _ hop =>
      exact absurd (BinaryOp.gives_iff.1 hop).symm (herr ▸ BinaryOp.apply_ne_tooDeep _ _ _ n)
    | index _ _ hop =>
      exact absurd (Value.indexGives_iff.1 hop).symm (herr ▸ Value.index_ne_tooDeep _ _ n)
    | builtin hcall => exact absurd hcall (herr ▸ Builtin.call_ne_tooDeep _ _ _ n)
    | tooDeep hlen hlim hle =>
      cases herr
      exact ⟨.closure hlen, hlim, hle, rfl⟩
    | _ => cases herr
  · rintro ⟨⟨hlen⟩, hlim, hle, rfl⟩
    exact .tooDeep hlen hlim hle

/-- A task begins under one limit what it begins under another one, if what comes
before it in the node has the same values and the task itself is not too deep. -/
theorem Begins.transfer {limit' : Option Nat}
    (before : ∀ {k₁ : Kind} {t₁ : Task ι k₁} {v : k₁.Answer ι} {s₁ s₂ : State ι},
      Begins limit' d t s d t₁ s₁ → Evaluates limit d t₁ s₁ (.ok v) s₂ →
      Evaluates limit' d t₁ s₁ (.ok v) s₂)
    (hshallow : ∀ n, ¬ Raises limit' d t s (.tooDeep n) s) (h : Begins limit d t s d₁ t₁ s₁) :
    Begins limit' d t s d₁ t₁ s₁ := by
  cases h with
  | array => exact .array
  | unary => exact .unary
  | binaryLeft => exact .binaryLeft
  | binaryRight hl => exact .binaryRight (before .binaryLeft hl)
  | condition => exact .condition
  | condYes he hv => exact .condYes (before .condition he) hv
  | condNo he hv => exact .condNo (before .condition he) hv
  | callee => exact .callee
  | arguments hf => exact .arguments (before .callee hf)
  | application hf hes =>
    have hf' := before .callee hf
    exact .application hf' (before (.arguments hf') hes)
  | indexLeft => exact .indexLeft
  | indexRight hl => exact .indexRight (before .indexLeft hl)
  | head => exact .head
  | tail he => exact .tail (before .head he)
  | expr => exact .expr
  | ret => exact .ret
  | bind => exact .bind
  | blockFirst => exact .blockFirst
  | blockNext ht => exact .blockNext (before .blockFirst ht)
  | programFirst => exact .programFirst
  | programNext ht => exact .programNext (before .programFirst ht)
  | body hlen _ =>
    refine .body hlen fun n hn => Nat.lt_of_not_le fun hdeep => ?_
    exact hshallow n (.tooDeep hlen hn hdeep)

/-- A task begins under a larger limit what it begins under a limit. -/
theorem Begins.of_limit_le (hle : ∀ n, limit = some n → most ≤ n)
    (h : Begins (some most) d t s d₁ t₁ s₁) : Begins limit d t s d₁ t₁ s₁ := by
  refine h.transfer (fun _ hev => hev.of_limit_le hle fun _ => nofun) fun n hraises => ?_
  obtain ⟨⟨hlen⟩, hlim, hdeep, -⟩ := raises_tooDeep_iff.1 hraises
  cases h with
  | body _ had => exact absurd (had.of_le hle n hlim) (Nat.not_lt.2 hdeep)

/-- Under a limit, a task ends because calls are too deep. -/
def RunsOver (most d : Nat) {k : Kind} (t : Task ι k) (s : State ι) : Prop :=
  ∃ n s', Evaluates (some most) d t s (.error (.error (.tooDeep n))) s'

/-- What begins a task that ends because calls are too deep ends so. -/
theorem Begins.runsOver (h : Begins (some most) d t s d₁ t₁ s₁) (hover : RunsOver most d₁ t₁ s₁) :
    RunsOver most d t s := by
  obtain ⟨n, s', hev⟩ := hover
  exact ⟨n, s', h.error hev⟩

/-- What a task begins under a larger limit it begins under the limit too, unless
calls are too deep before that. -/
theorem Begins.of_larger_limit (hle : ∀ n, limit = some n → most ≤ n)
    (h : Begins limit d t s d₁ t₁ s₁) (hover : ¬ RunsOver most d t s) :
    Begins (some most) d t s d₁ t₁ s₁ := by
  refine h.transfer (fun {k₁ t₁ v s₁ s₂} hbegins hev => ?_) fun n hraises => ?_
  · -- what comes before does not run over, so it ends as under the larger limit
    obtain ⟨r, s', hev'⟩ := exists_evaluates most d t₁ s₁
    have hr : ∀ n, ¬ Exceeds n r := by
      rintro n rfl
      exact hover (hbegins.runsOver ⟨n, s', hev'⟩)
    obtain ⟨rfl, rfl⟩ := (hev'.of_limit_le hle hr).unique hev
    exact hev'
  · exact hover ⟨n, s, hraises.evaluates⟩

/-- A limit is never passed: where no more calls than it admits are in progress,
there never are more. -/
theorem Reaches.depth_le (h : Reaches (some most) d t s d₁ t₁ s₁) (hd : d ≤ most) : d₁ ≤ most := by
  induction h with
  | refl => exact hd
  | step hbegins _ ih =>
    refine ih ?_
    cases hbegins with
    | body _ had => exact had most rfl
    | _ => exact hd

/-- A task comes under a larger limit to what it comes to under a limit. -/
theorem Reaches.of_limit_le (hle : ∀ n, limit = some n → most ≤ n)
    (h : Reaches (some most) d t s d₁ t₁ s₁) : Reaches limit d t s d₁ t₁ s₁ := by
  induction h with
  | refl => exact .refl
  | step hbegins _ ih => exact .step (hbegins.of_limit_le hle) ih

/-- A task that comes under a larger limit to one which runs over runs over. The
induction is on the way there. -/
theorem Reaches.runsOver (hle : ∀ n, limit = some n → most ≤ n)
    (h : Reaches limit d t s d₁ t₁ s₁) (hover : RunsOver most d₁ t₁ s₁) : RunsOver most d t s := by
  induction h with
  | refl => exact hover
  | step hbegins _ ih =>
    refine Classical.byContradiction fun hover' => hover' ?_
    exact (hbegins.of_larger_limit hle hover').runsOver (ih hover)

/-- Under a limit that the calls in progress do not pass yet, a task runs over
exactly when under the larger limit it comes to the call of a function with as
many calls in progress as the limit admits. -/
theorem runsOver_iff (hle : ∀ n, limit = some n → most ≤ n) (hd : d ≤ most) :
    RunsOver most d t s ↔ ∃ f env args s₁, f.parameters.length = args.length ∧
      Reaches limit d t s most (.apply (.closure f env) args) s₁ := by
  constructor
  · rintro ⟨n, s', hev⟩
    obtain ⟨d₁, k₁, t₁, s₁, hreaches, hraises⟩ := evaluates_error_iff.1 hev
    obtain ⟨hcalls, hlim, hdeep, -⟩ := raises_tooDeep_iff.1 hraises
    cases hlim
    have hmost : d₁ = most := Nat.le_antisymm (hreaches.depth_le hd) hdeep
    subst hmost
    cases hcalls with
    | @closure f env args hlen => exact ⟨f, env, args, s₁, hlen, hreaches.of_limit_le hle⟩
  · rintro ⟨f, env, args, s₁, hlen, hreaches⟩
    exact hreaches.runsOver hle ⟨most, s₁, .applyTooDeep hlen rfl (Nat.le_refl most)⟩

end Tasks

/-! ## The comparison of two limits -/

/-- **A limit only cuts runs short.** Compared with a larger limit, or with none, a
run under a limit ends alike, with the same text and the same frames, unless
calls are too deep for it. Then it says which limit that was, and its text is a
prefix of the other's. Calls are too deep exactly when the other run comes to the
call of a function, with the right number of arguments, while as many calls of
functions are in progress as the limit admits. -/
theorem limit_only_cuts_short (most : Nat) (limit : Option Nat)
    (hle : ∀ n, limit = some n → most ≤ n) (m : Machine ι) (phrase : Phrase ι) (env : FrameId) :
    ∃ o m', m.evaluate (some most) phrase env = some (o, m') ∧
      ((∀ n, o ≠ .error (.error (.tooDeep n))) → m.evaluate limit phrase env = some (o, m')) ∧
      (∀ n, o = .error (.error (.tooDeep n)) → n = most ∧
        ∀ o₂ m₂, m.evaluate limit phrase env = some (o₂, m₂) → m'.printer.Within m₂.printer) ∧
      (m.depth ≤ most → ((∃ n, o = .error (.error (.tooDeep n))) ↔
        ∃ f captured args s, f.parameters.length = args.length ∧
          Reaches limit m.depth (phrase.task env) m.state most
            (.apply (.closure f captured) args) s)) := by
  have hcuts : (phrase.eval (call (some most)) env).CutsShort most (phrase.eval (call limit) env) :=
    phrase.eval_rel (EvalM.CutsShort.compatible most env) (call_cutsShort hle) fun _ _ => trivial
  obtain ⟨o, s', hev⟩ := exists_evaluates most m.depth (phrase.task env) m.state
  have hexec : m.evaluate (some most) phrase env = some (o, s'.machine m.depth) := by
    rw [Machine.evaluate, ← Phrase.eval_task]
    exact hev.exec
  refine ⟨o, s'.machine m.depth, hexec, hcuts.alike m o _ hexec,
    fun n hn => hcuts.cut m n o _ hexec hn, fun hd => ?_⟩
  rw [← runsOver_iff hle hd]
  constructor
  · rintro ⟨n, rfl⟩
    exact ⟨n, s', hev⟩
  · rintro ⟨n, s₁, hover⟩
    exact ⟨n, (hev.unique hover).1⟩

attribute [local semireducible] Pending.write Store.lookup

/-- A call inside a call, between two lines printed by a builtin, under a limit of
one call and under none. -/
theorem limit_only_cuts_short_nested :
    let inner : FnLiteral Unit := ⟨(), [], [.expr (.int 1)]⟩
    let outer : FnLiteral Unit :=
      ⟨(), [], [.expr (.call (.ident "log") [.str "x"]), .expr (.call (.fn inner) [])]⟩
    let p : Program Unit :=
      ⟨[.expr (.call (.fn outer) []), .expr (.call (.ident "log") [.str "y"])]⟩
    let m : Machine Unit := Machine.fresh (.buffer "")
    ∃ m' m₂, m.evaluate (some 1) (.program p) Machine.root =
        some (.error (.error (.tooDeep 1)), m') ∧ m'.printer = .buffer "x\n" ∧
      m.evaluate none (.program p) Machine.root = some (.ok .null, m₂) ∧
      m₂.printer = .buffer "x\ny\n" ∧ m'.printer.Within m₂.printer ∧
      ∃ f captured args s, f.parameters.length = args.length ∧
        Reaches none 0 (.program Machine.root p.statements) m.state 1
          (.apply (.closure f captured) args) s := by
  intro inner outer p m
  have hshort : (m.evaluate (some 1) (.program p) Machine.root).map (fun r => (r.1, r.2.printer)) =
      some (.error (.error (.tooDeep 1)), .buffer "x\n") :=
    Machine.map_evaluate_of_nested 2 rfl
  have hlong : (m.evaluate none (.program p) Machine.root).map (fun r => (r.1, r.2.printer)) =
      some (.ok .null, .buffer "x\ny\n") :=
    Machine.map_evaluate_of_nested 2 rfl
  have hnone : ∀ most : Nat, none = some most → 1 ≤ most := by
    intro _ h
    cases h
  obtain ⟨o, m', h, -, hcut, hdeep⟩ :=
    limit_only_cuts_short 1 none hnone m (.program p) Machine.root
  rw [h] at hshort
  obtain ⟨rfl, hx⟩ := Prod.mk.inj (Option.some.inj hshort)
  obtain ⟨⟨o₂, m₂⟩, h₂, heq⟩ := Option.map_eq_some_iff.1 hlong
  obtain ⟨rfl, hxy⟩ := Prod.mk.inj heq
  exact ⟨m', m₂, h, hx, h₂, hxy, (hcut 1 rfl).2 _ _ h₂, (hdeep (Nat.zero_le 1)).1 ⟨1, rfl⟩⟩

end Monkey
