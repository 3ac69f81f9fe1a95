import Monkey.Proofs.Moments

/-!
# Monkey — the course of an evaluation

A moment is a task begun on a machine. `Opens` lists the moments that a moment
opens itself, each with the step that leads to it: a part of the node, counted in
the order of evaluation, or the body of the function that is called. `Course`
lists the moments that come about in the course of a moment, each with its
place, the steps that lead to it. One moment is later than another where the
two places part at a node and the first goes to a later part of it.

The steps of a moment tell the calls in progress at it (`Course.depth_eq`), and a
later part of a node is opened only after the earlier ones have ended with values
(`Opens.earlier_ended`).
-/

namespace Monkey

variable {ι : Type}

/-! ## Moments -/

/-- A task that is begun on a machine. -/
structure Moment (ι : Type) where
  {kind : Kind}
  task : Task ι kind
  machine : Machine ι

/-- The moment ends with a result, on a machine. -/
def Moment.Ends (limit : Option Nat) (x : Moment ι)
    (r : Except (Interrupt ι) (x.kind.Answer ι)) (m : Machine ι) : Prop :=
  (x.task.eval limit).exec x.machine = some (r, m)

/-- From a moment to one that it opens: a part of its node, or the body of the
function that it calls. -/
inductive Step where
  | part (i : Nat)
  | body
  deriving DecidableEq, Repr

/-- The steps that lead from a moment to one in its course. -/
abbrev Place := List Step

/-- One place is later than another: at some node it goes to a later part. -/
def Place.Later (q p : Place) : Prop :=
  ∃ (c : Place) (i j : Nat) (p' q' : Place),
    p = c ++ .part i :: p' ∧ q = c ++ .part j :: q' ∧ i < j

/-- What is later than a place is later than every place inside it. -/
theorem Place.Later.append {p q : Place} (h : q.Later p) (r : Place) : q.Later (p ++ r) := by
  obtain ⟨c, i, j, p', q', rfl, rfl, hlt⟩ := h
  exact ⟨c, i, j, p' ++ r, q', by simp, rfl, hlt⟩

/-- A moment opens another one at a step. The parts of the node before it have
ended with values. -/
inductive Moment.Opens (limit : Option Nat) : Moment ι → Step → Moment ι → Prop
  -- expressions
  | array {env : FrameId} {es : List (Expr ι)} {m : Machine ι} :
      Opens limit ⟨.expression env (.array es), m⟩ (.part 0) ⟨.expressions env es, m⟩
  | unary {env : FrameId} {op : UnaryOp} {e : Expr ι} {m : Machine ι} :
      Opens limit ⟨.expression env (.unary op e), m⟩ (.part 0) ⟨.expression env e, m⟩
  | binaryLeft {env : FrameId} {op : BinaryOp} {l r : Expr ι} {m : Machine ι} :
      Opens limit ⟨.expression env (.binary op l r), m⟩ (.part 0) ⟨.expression env l, m⟩
  | binaryRight {env : FrameId} {op : BinaryOp} {l r : Expr ι} {v : Value ι} {m m₁ : Machine ι} :
      Ends limit ⟨.expression env l, m⟩ (.ok v) m₁ →
      Opens limit ⟨.expression env (.binary op l r), m⟩ (.part 1) ⟨.expression env r, m₁⟩
  | condition {env : FrameId} {e : Expr ι} {yes : Block ι} {no : Option (Block ι)}
      {m : Machine ι} :
      Opens limit ⟨.expression env (.cond e yes no), m⟩ (.part 0) ⟨.expression env e, m⟩
  | condYes {env : FrameId} {e : Expr ι} {yes : Block ι} {no : Option (Block ι)} {v : Value ι}
      {m m₁ : Machine ι} :
      Ends limit ⟨.expression env e, m⟩ (.ok v) m₁ → ¬ v.Falsy →
      Opens limit ⟨.expression env (.cond e yes no), m⟩ (.part 1) ⟨.block env yes, m₁⟩
  | condNo {env : FrameId} {e : Expr ι} {yes no : Block ι} {v : Value ι} {m m₁ : Machine ι} :
      Ends limit ⟨.expression env e, m⟩ (.ok v) m₁ → v.Falsy →
      Opens limit ⟨.expression env (.cond e yes (some no)), m⟩ (.part 1) ⟨.block env no, m₁⟩
  | callee {env : FrameId} {f : Expr ι} {es : List (Expr ι)} {m : Machine ι} :
      Opens limit ⟨.expression env (.call f es), m⟩ (.part 0) ⟨.expression env f, m⟩
  | arguments {env : FrameId} {f : Expr ι} {es : List (Expr ι)} {v : Value ι}
      {m m₁ : Machine ι} :
      Ends limit ⟨.expression env f, m⟩ (.ok v) m₁ →
      Opens limit ⟨.expression env (.call f es), m⟩ (.part 1) ⟨.expressions env es, m₁⟩
  | application {env : FrameId} {f : Expr ι} {es : List (Expr ι)} {v : Value ι}
      {vs : List (Value ι)} {m m₁ m₂ : Machine ι} :
      Ends limit ⟨.expression env f, m⟩ (.ok v) m₁ →
      Ends limit ⟨.expressions env es, m₁⟩ (.ok vs) m₂ →
      Opens limit ⟨.expression env (.call f es), m⟩ (.part 2) ⟨.apply v vs, m₂⟩
  | indexLeft {env : FrameId} {l e : Expr ι} {m : Machine ι} :
      Opens limit ⟨.expression env (.index l e), m⟩ (.part 0) ⟨.expression env l, m⟩
  | indexRight {env : FrameId} {l e : Expr ι} {v : Value ι} {m m₁ : Machine ι} :
      Ends limit ⟨.expression env l, m⟩ (.ok v) m₁ →
      Opens limit ⟨.expression env (.index l e), m⟩ (.part 1) ⟨.expression env e, m₁⟩
  -- expressions in order
  | head {env : FrameId} {e : Expr ι} {es : List (Expr ι)} {m : Machine ι} :
      Opens limit ⟨.expressions env (e :: es), m⟩ (.part 0) ⟨.expression env e, m⟩
  | tail {env : FrameId} {e : Expr ι} {es : List (Expr ι)} {v : Value ι} {m m₁ : Machine ι} :
      Ends limit ⟨.expression env e, m⟩ (.ok v) m₁ →
      Opens limit ⟨.expressions env (e :: es), m⟩ (.part 1) ⟨.expressions env es, m₁⟩
  -- statements, blocks and programs
  | expr {env : FrameId} {e : Expr ι} {m : Machine ι} :
      Opens limit ⟨.statement env (.expr e), m⟩ (.part 0) ⟨.expression env e, m⟩
  | ret {env : FrameId} {e : Expr ι} {m : Machine ι} :
      Opens limit ⟨.statement env (.ret e), m⟩ (.part 0) ⟨.expression env e, m⟩
  | bind {env : FrameId} {x : String} {e : Expr ι} {m : Machine ι} :
      Opens limit ⟨.statement env (.bind x e), m⟩ (.part 0) ⟨.expression env e, m⟩
  | blockFirst {env : FrameId} {t : Stmt ι} {ts : List (Stmt ι)} {m : Machine ι} :
      Opens limit ⟨.block env (t :: ts), m⟩ (.part 0) ⟨.statement env t, m⟩
  | blockNext {env : FrameId} {t u : Stmt ι} {ts : List (Stmt ι)} {v : Value ι}
      {m m₁ : Machine ι} :
      Ends limit ⟨.statement env t, m⟩ (.ok v) m₁ →
      Opens limit ⟨.block env (t :: u :: ts), m⟩ (.part 1) ⟨.block env (u :: ts), m₁⟩
  | programFirst {env : FrameId} {t : Stmt ι} {ts : List (Stmt ι)} {m : Machine ι} :
      Opens limit ⟨.program env (t :: ts), m⟩ (.part 0) ⟨.statement env t, m⟩
  | programNext {env : FrameId} {t u : Stmt ι} {ts : List (Stmt ι)} {v : Value ι}
      {m m₁ : Machine ι} :
      Ends limit ⟨.statement env t, m⟩ (.ok v) m₁ →
      Opens limit ⟨.program env (t :: u :: ts), m⟩ (.part 1) ⟨.program env (u :: ts), m₁⟩
  -- the body of a function, in a frame of its own
  | body {f : FnLiteral ι} {env : FrameId} {args : List (Value ι)} {m : Machine ι} :
      f.parameters.length = args.length → Admits limit m.depth →
      Opens limit ⟨.apply (.closure f env) args, m⟩ .body
        ⟨.block m.store.next f.body, m.enter f env args⟩

/-- In the course of a moment, at a place, another moment comes about. -/
inductive Moment.Course (limit : Option Nat) : Moment ι → Place → Moment ι → Prop
  | here {x : Moment ι} : Course limit x [] x
  | inside {x y z : Moment ι} {i : Step} {p : Place} :
      Opens limit x i y → Course limit y p z → Course limit x (i :: p) z

namespace Moment

variable {limit : Option Nat} {x y z : Moment ι}

/-! ## How moments end -/

/-- A moment ends as the rules say, with as many calls in progress as at its
start. -/
theorem ends_iff {r : Except (Interrupt ι) (x.kind.Answer ι)} {m : Machine ι} :
    x.Ends limit r m ↔ m.depth = x.machine.depth ∧
      Evaluates limit x.machine.depth x.task x.machine.state r m.state := by
  constructor
  · intro h
    obtain ⟨s, rfl, hev⟩ := x.task.eval_follows limit x.machine.depth x.machine.state r m h
    exact ⟨rfl, hev⟩
  · rintro ⟨hd, hev⟩
    have hm : m.state.machine x.machine.depth = m := by rw [← hd]; rfl
    have hexec := hev.exec
    rw [hm] at hexec
    exact hexec

/-- A moment ends with as many calls in progress as at its start. -/
theorem Ends.depth_eq {r : Except (Interrupt ι) (x.kind.Answer ι)} {m : Machine ι}
    (h : x.Ends limit r m) : m.depth = x.machine.depth :=
  (ends_iff.1 h).1

/-- A moment ends in one way at most. -/
theorem Ends.unique {r r' : Except (Interrupt ι) (x.kind.Answer ι)} {m m' : Machine ι}
    (h : x.Ends limit r m) (h' : x.Ends limit r' m') : r = r' ∧ m = m' :=
  Prod.mk.inj (Option.some.inj (h.symm.trans h'))

theorem Ends.not_error {r : x.kind.Answer ι} {i : Interrupt ι} {m m' : Machine ι}
    (h : x.Ends limit (.ok r) m) (h' : x.Ends limit (.error i) m') : False := by
  obtain ⟨heq, -⟩ := h.unique h'
  cases heq

/-! ## What a moment opens -/

/-- At each step a moment opens one moment at most. -/
theorem Opens.unique {i : Step} (hy : x.Opens limit i y) (hz : x.Opens limit i z) : y = z := by
  cases hy with
  | binaryRight h =>
    cases hz with
    | binaryRight h' => obtain ⟨-, rfl⟩ := h.unique h'; rfl
  | condYes h hv =>
    cases hz with
    | condYes h' _ => obtain ⟨-, rfl⟩ := h.unique h'; rfl
    | condNo h' hv' =>
      obtain ⟨heq, -⟩ := h.unique h'
      cases heq
      exact absurd hv' hv
  | condNo h hv =>
    cases hz with
    | condNo h' _ => obtain ⟨-, rfl⟩ := h.unique h'; rfl
    | condYes h' hv' =>
      obtain ⟨heq, -⟩ := h.unique h'
      cases heq
      exact absurd hv hv'
  | arguments h =>
    cases hz with
    | arguments h' => obtain ⟨-, rfl⟩ := h.unique h'; rfl
  | application hf hes =>
    cases hz with
    | application hf' hes' =>
      obtain ⟨heq, rfl⟩ := hf.unique hf'
      cases heq
      obtain ⟨heq, rfl⟩ := hes.unique hes'
      cases heq
      rfl
  | indexRight h =>
    cases hz with
    | indexRight h' => obtain ⟨-, rfl⟩ := h.unique h'; rfl
  | tail h =>
    cases hz with
    | tail h' => obtain ⟨-, rfl⟩ := h.unique h'; rfl
  | blockNext h =>
    cases hz with
    | blockNext h' => obtain ⟨-, rfl⟩ := h.unique h'; rfl
  | programNext h =>
    cases hz with
    | programNext h' => obtain ⟨-, rfl⟩ := h.unique h'; rfl
  | _ => cases hz; rfl

/-- A later part of a node is opened when the earlier ones have ended with values. -/
theorem Opens.earlier_ended {i j : Nat} (hy : x.Opens limit (.part i) y)
    (hz : x.Opens limit (.part j) z) (hlt : i < j) : ∃ v m, y.Ends limit (.ok v) m := by
  cases hz with
  | binaryRight h =>
    cases hy with
    | binaryLeft => exact ⟨_, _, h⟩
    | binaryRight _ => omega
  | condYes h _ =>
    cases hy with
    | condition => exact ⟨_, _, h⟩
    | _ => omega
  | condNo h _ =>
    cases hy with
    | condition => exact ⟨_, _, h⟩
    | _ => omega
  | arguments h =>
    cases hy with
    | callee => exact ⟨_, _, h⟩
    | _ => omega
  | application hf hes =>
    cases hy with
    | callee => exact ⟨_, _, hf⟩
    | arguments hf' =>
      obtain ⟨-, rfl⟩ := hf.unique hf'
      exact ⟨_, _, hes⟩
    | application _ _ => omega
  | indexRight h =>
    cases hy with
    | indexLeft => exact ⟨_, _, h⟩
    | indexRight _ => omega
  | tail h =>
    cases hy with
    | head => exact ⟨_, _, h⟩
    | tail _ => omega
  | blockNext h =>
    cases hy with
    | blockFirst => exact ⟨_, _, h⟩
    | blockNext _ => omega
  | programNext h =>
    cases hy with
    | programFirst => exact ⟨_, _, h⟩
    | programNext _ => omega
  | _ => omega

/-- Only the start of a body changes the number of calls in progress. -/
theorem Opens.depth_eq {i : Step} (h : x.Opens limit i y) :
    y.machine.depth = x.machine.depth + if i = .body then 1 else 0 := by
  cases h with
  | binaryRight h | condYes h | condNo h | arguments h | indexRight h | tail h | blockNext h
  | programNext h => exact h.depth_eq
  | application hf hes => exact hes.depth_eq.trans hf.depth_eq
  | _ => rfl

/-- A body is started only where the limit admits one more call. -/
theorem Opens.depth_le {most : Nat} {i : Step} (h : x.Opens (some most) i y)
    (hx : x.machine.depth ≤ most) : y.machine.depth ≤ most := by
  have hdepth := h.depth_eq
  cases h with
  | body _ had => exact had most rfl
  | _ =>
    rw [hdepth]
    exact hx

/-! ## The course of a moment -/

theorem Course.append_iff {p q : Place} :
    x.Course limit (p ++ q) z ↔ ∃ y, x.Course limit p y ∧ y.Course limit q z := by
  induction p generalizing x with
  | nil =>
    constructor
    · exact fun h => ⟨x, .here, h⟩
    · rintro ⟨y, ⟨⟩, h⟩
      exact h
  | cons i p ih =>
    constructor
    · intro h
      cases h with
      | inside hopens h =>
        obtain ⟨y, hp, hq⟩ := ih.1 h
        exact ⟨y, .inside hopens hp, hq⟩
    · rintro ⟨y, hp, hq⟩
      cases hp with
      | inside hopens hp => exact .inside hopens (ih.2 ⟨y, hp, hq⟩)

/-- At each place at most one moment comes about. -/
theorem Course.unique {p : Place} (hy : x.Course limit p y) (hz : x.Course limit p z) : y = z := by
  induction hy with
  | here =>
    cases hz with
    | here => rfl
  | inside hopens _ ih =>
    cases hz with
    | inside hopens' hz =>
      obtain rfl := hopens.unique hopens'
      exact ih hz

/-- The place of a moment tells how many calls have begun since, and not ended. -/
theorem Course.depth_eq {p : Place} (h : x.Course limit p y) :
    y.machine.depth = x.machine.depth + p.count .body := by
  induction h with
  | here => rfl
  | inside hopens _ ih =>
    rw [ih, hopens.depth_eq, List.count_cons]
    simp only [beq_iff_eq]
    omega

/-- In the course of a moment there are never more calls in progress than the
limit admits. -/
theorem Course.depth_le {most : Nat} {p : Place} (h : x.Course (some most) p y)
    (hx : x.machine.depth ≤ most) : y.machine.depth ≤ most := by
  induction h with
  | here => exact hx
  | inside hopens _ ih => exact ih (hopens.depth_le hx)

/-- Nothing comes about later than a moment that ends with an interrupt, if all the
moments on the way to it do: a later part of a node would have to wait for a value. -/
theorem Course.not_later {p q : Place} (hy : x.Course limit p y)
    (hends : ∀ c w, c <+: p → x.Course limit c w → ∃ i m, w.Ends limit (.error i) m)
    (hz : x.Course limit q z) : ¬ q.Later p := by
  rintro ⟨c, i, j, p', q', rfl, rfl, hlt⟩
  obtain ⟨w, hw, hy⟩ := append_iff.1 hy
  obtain ⟨w', hw', hz⟩ := append_iff.1 hz
  obtain rfl := hw.unique hw'
  cases hy with
  | @inside _ a _ _ _ hopens hy =>
    cases hz with
    | inside hopens' hz =>
      obtain ⟨v, m, hvalue⟩ := hopens.earlier_ended hopens' hlt
      have ha : x.Course limit (c ++ [.part i]) a := append_iff.2 ⟨w, hw, .inside hopens .here⟩
      obtain ⟨i', m', herror⟩ := hends _ a ⟨p', by simp⟩ ha
      exact hvalue.not_error herror

end Moment

/-- A run of a phrase ends as the moment of its task does. -/
theorem Machine.evaluate_eq_some_iff {limit : Option Nat} {m m' : Machine ι} {phrase : Phrase ι}
    {env : FrameId} {o : Outcome ι} :
    m.evaluate limit phrase env = some (o, m') ↔
      Moment.Ends limit ⟨phrase.task env, m⟩ o m' := by
  rw [Machine.evaluate, Moment.Ends, ← Phrase.eval_task]

/-! ## Moments of the rules -/

theorem Begins.of_depth_eq {limit : Option Nat} {d d₁ : Nat} {k k₁ : Kind} {t : Task ι k}
    {t₁ : Task ι k₁} {s s₁ : State ι} (hd : d₁ = d) (h : Begins limit d t s d t₁ s₁) :
    Begins limit d t s d₁ t₁ s₁ := hd ▸ h

/-- What a moment opens its task begins, by the rules. -/
theorem Moment.Opens.begins {limit : Option Nat} {x y : Moment ι} {i : Step}
    (h : x.Opens limit i y) :
    Begins limit x.machine.depth x.task x.machine.state y.machine.depth y.task y.machine.state := by
  cases h with
  | array => exact .array
  | unary => exact .unary
  | binaryLeft => exact .binaryLeft
  | binaryRight hl =>
    obtain ⟨hd, hl⟩ := ends_iff.1 hl
    exact .of_depth_eq hd (.binaryRight hl)
  | condition => exact .condition
  | condYes he hv =>
    obtain ⟨hd, he⟩ := ends_iff.1 he
    exact .of_depth_eq hd (.condYes he hv)
  | condNo he hv =>
    obtain ⟨hd, he⟩ := ends_iff.1 he
    exact .of_depth_eq hd (.condNo he hv)
  | callee => exact .callee
  | arguments hf =>
    obtain ⟨hd, hf⟩ := ends_iff.1 hf
    exact .of_depth_eq hd (.arguments hf)
  | application hf hes =>
    obtain ⟨hd, hf⟩ := ends_iff.1 hf
    obtain ⟨hd', hes⟩ := ends_iff.1 hes
    refine .of_depth_eq (hd'.trans hd) (.application hf ?_)
    rw [← hd]
    exact hes
  | indexLeft => exact .indexLeft
  | indexRight hl =>
    obtain ⟨hd, hl⟩ := ends_iff.1 hl
    exact .of_depth_eq hd (.indexRight hl)
  | head => exact .head
  | tail he =>
    obtain ⟨hd, he⟩ := ends_iff.1 he
    exact .of_depth_eq hd (.tail he)
  | expr => exact .expr
  | ret => exact .ret
  | bind => exact .bind
  | blockFirst => exact .blockFirst
  | blockNext ht =>
    obtain ⟨hd, ht⟩ := ends_iff.1 ht
    exact .of_depth_eq hd (.blockNext ht)
  | programFirst => exact .programFirst
  | programNext ht =>
    obtain ⟨hd, ht⟩ := ends_iff.1 ht
    exact .of_depth_eq hd (.programNext ht)
  | body hlen had => exact .body hlen had

/-- What a task begins, by the rules, a moment of the task opens. -/
theorem Begins.opens {limit : Option Nat} {d d₁ : Nat} {k k₁ : Kind} {t : Task ι k}
    {t₁ : Task ι k₁} {s s₁ : State ι} (h : Begins limit d t s d₁ t₁ s₁) :
    ∃ i, Moment.Opens limit ⟨t, s.machine d⟩ i ⟨t₁, s₁.machine d₁⟩ := by
  cases h with
  | array => exact ⟨_, .array⟩
  | unary => exact ⟨_, .unary⟩
  | binaryLeft => exact ⟨_, .binaryLeft⟩
  | binaryRight hl => exact ⟨_, .binaryRight hl.exec⟩
  | condition => exact ⟨_, .condition⟩
  | condYes he hv => exact ⟨_, .condYes he.exec hv⟩
  | condNo he hv => exact ⟨_, .condNo he.exec hv⟩
  | callee => exact ⟨_, .callee⟩
  | arguments hf => exact ⟨_, .arguments hf.exec⟩
  | application hf hes => exact ⟨_, .application hf.exec hes.exec⟩
  | indexLeft => exact ⟨_, .indexLeft⟩
  | indexRight hl => exact ⟨_, .indexRight hl.exec⟩
  | head => exact ⟨_, .head⟩
  | tail he => exact ⟨_, .tail he.exec⟩
  | expr => exact ⟨_, .expr⟩
  | ret => exact ⟨_, .ret⟩
  | bind => exact ⟨_, .bind⟩
  | blockFirst => exact ⟨_, .blockFirst⟩
  | blockNext ht => exact ⟨_, .blockNext ht.exec⟩
  | programFirst => exact ⟨_, .programFirst⟩
  | programNext ht => exact ⟨_, .programNext ht.exec⟩
  | body hlen had => exact ⟨_, .body hlen had⟩

/-- What a task comes to, by the rules, comes about in the course of a moment of the
task. -/
theorem Reaches.course {limit : Option Nat} {d d₁ : Nat} {k k₁ : Kind} {t : Task ι k}
    {t₁ : Task ι k₁} {s s₁ : State ι} (h : Reaches limit d t s d₁ t₁ s₁) :
    ∃ p, Moment.Course limit ⟨t, s.machine d⟩ p ⟨t₁, s₁.machine d₁⟩ := by
  induction h with
  | refl => exact ⟨[], .here⟩
  | step hbegins _ ih =>
    obtain ⟨i, hopens⟩ := hbegins.opens
    obtain ⟨p, hcourse⟩ := ih
    exact ⟨i :: p, .inside hopens hcourse⟩

end Monkey
