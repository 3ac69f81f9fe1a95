import Monkey.Eval.Approximation
import Monkey.Proofs.Uncatchable
import Monkey.Syntax.Returns

/-!
# Monkey — where a pending return comes from, and where it ends

A pending `return` that comes out of an evaluation comes from a `return` statement
that the node exposes: every moment on the way there ends with it, at once
(`Moment.Ends.passesOut`). A program and an application expose none, so none comes
out of them (`returns_are_confined`).
-/

namespace Monkey

variable {ι : Type} {limit : Option Nat}

/-- The values of the `return` statements that a task exposes. A program and an
application are boundaries of a `return`. -/
def Task.returns : {k : Kind} → Task ι k → List (Expr ι)
  | _, .expression _ e => e.returns
  | _, .expressions _ es => Expr.returnsList es
  | _, .statement _ s => s.returns
  | _, .block _ b => Stmt.returnsList b
  | _, .program _ _ => []
  | _, .apply _ _ => []

namespace Moment

/-- A pending `return` comes out of a moment, on a machine: it is that of an exposed
`return` statement in its course, on the machine on which the value of the statement
has been found, and every moment on the way to the statement ends with it. -/
def PassesOut (limit : Option Nat) (x : Moment ι) (v : Value ι) (m : Machine ι) : Prop :=
  ∃ p env e m₁, x.Course limit p ⟨.statement env (.ret e), m₁⟩ ∧ e ∈ x.task.returns ∧
    Ends limit ⟨.expression env e, m₁⟩ (.ok v) m ∧
    ∀ c w, c <+: p → x.Course limit c w → w.Ends limit (.error (.returned v)) m

variable {x y : Moment ι} {v : Value ι} {m : Machine ι}

/-- What comes out of a part that a moment opens comes out of the moment, if it ends
so. -/
theorem PassesOut.of_opens {i : Step} (hy : y.PassesOut limit v m) (h : x.Opens limit i y)
    (hreturns : y.task.returns ⊆ x.task.returns)
    (hends : x.Ends limit (.error (.returned v)) m) : x.PassesOut limit v m := by
  obtain ⟨p, env, e, m₁, hcourse, he, hvalue, hway⟩ := hy
  refine ⟨i :: p, env, e, m₁, .inside h hcourse, hreturns he, hvalue, fun c w hc hw => ?_⟩
  cases hw with
  | here => exact hends
  | inside h' hw =>
    obtain ⟨rfl, htail⟩ := List.cons_prefix_cons.1 hc
    obtain rfl := h.unique h'
    exact hway _ w htail hw

end Moment

/-- A task that takes a pending `return` for its own: a `let`, a program or a call. -/
def Task.Boundary : {k : Kind} → Task ι k → Prop
  | _, .statement _ (.bind _ _) | _, .program _ _ | _, .apply _ _ => True
  | _, _ => False

section Boundaries

variable {d d₁ : Nat} {k k₁ : Kind} {t : Task ι k} {t₁ : Task ι k₁} {s s₁ s' : State ι}

/-- An interrupt that comes out of a boundary is an error. -/
theorem Evaluates.error_of_boundary {i : Interrupt ι} (h : Evaluates limit d t s (.error i) s')
    (ht : t.Boundary) : ∃ err, i = .error err := by
  cases t with
  | statement env st =>
    cases st with
    | bind x e =>
      cases h with
      | bindError _ => exact ⟨_, rfl⟩
    | _ => cases ht
  | program env ss =>
    induction ss generalizing s with
    | nil => cases h
    | cons st ss ih =>
      cases h with
      | programNext _ h => exact ih h trivial
      | programError _ => exact ⟨_, rfl⟩
  | apply callee args =>
    generalize ho : (Except.error i : Outcome ι) = o at h
    cases h with
    | applyValue _ _ _ | applyReturned _ _ _ => cases ho
    | applyArity _ | applyTooDeep _ _ _ | applyError _ _ _ | applyOther _ _ =>
      cases ho
      exact ⟨_, rfl⟩
    | @applyBuiltin _ b _ _ =>
      generalize (b.call args s.log).1 = r at ho
      cases r <;> cases ho
      exact ⟨_, rfl⟩
  | _ => cases ht

/-- What is begun by a task that is no boundary is no deeper in calls, and exposes no
`return` that the task does not expose. -/
theorem Begins.returns_subset (h : Begins limit d t s d₁ t₁ s₁) (ht : ¬ t.Boundary) :
    d₁ = d ∧ t₁.returns ⊆ t.returns := by
  cases h with
  | array | unary | expr => exact ⟨rfl, List.Subset.refl _⟩
  | binaryLeft | callee | indexLeft | head | blockFirst => exact ⟨rfl, List.subset_append_left _ _⟩
  | binaryRight | arguments | indexRight | tail | blockNext =>
    exact ⟨rfl, List.subset_append_right _ _⟩
  | @condition env e yes no =>
    refine ⟨rfl, ?_⟩
    cases no <;> exact List.subset_append_left _ _
  | @condYes env e yes no =>
    refine ⟨rfl, ?_⟩
    cases no with
    | none => exact List.subset_append_right _ _
    | some no =>
      exact List.Subset.trans (List.subset_append_left _ _) (List.subset_append_right _ _)
  | condNo =>
    exact ⟨rfl, List.Subset.trans (List.subset_append_right _ _) (List.subset_append_right _ _)⟩
  | application => exact ⟨rfl, List.nil_subset _⟩
  | ret => exact ⟨rfl, List.subset_cons_self _ _⟩
  | bind | programFirst | programNext | body => exact absurd trivial ht

end Boundaries

/-- A pending `return` passes out of every moment that ends with it. -/
theorem Evaluates.passesOut {d : Nat} {k : Kind} {t : Task ι k} {s s' : State ι} {v : Value ι}
    (h : Evaluates limit d t s (.error (.returned v)) s') :
    Moment.PassesOut limit ⟨t, s.machine d⟩ v (s'.machine d) := by
  refine h.interrupt_induction (P := fun d _ t s i s' => ∀ v, i = .returned v →
    Moment.PassesOut limit ⟨t, s.machine d⟩ v (s'.machine d)) ?_ ?_ ?_ v rfl
  · exact fun _ _ => nofun
  · rintro d env e v s s' he _ ⟨⟩
    -- the return itself: there is no way left to go
    refine ⟨[], env, e, s.machine d, .here, List.mem_cons_self, he.exec, fun c w hc hw => ?_⟩
    obtain rfl := List.prefix_nil.1 hc
    cases hw
    exact (Evaluates.ret he).exec
  · rintro d d₁ k k₁ t t₁ s s₁ s' _ hbegins hends ih v rfl
    have ht : ¬ t.Boundary := fun ht => nomatch hends.error_of_boundary ht
    obtain ⟨rfl, hreturns⟩ := hbegins.returns_subset ht
    obtain ⟨step, hopens⟩ := hbegins.opens
    exact (ih v rfl).of_opens hopens hreturns hends.exec

theorem Moment.Ends.passesOut {x : Moment ι} {v : Value ι} {m : Machine ι}
    (h : x.Ends limit (.error (.returned v)) m) : x.PassesOut limit v m := by
  obtain ⟨hd, hev⟩ := ends_iff.1 h
  have hm : m.state.machine x.machine.depth = m := by rw [← hd]; rfl
  have hpass := hev.passesOut
  rw [hm] at hpass
  exact hpass

/-- No pending `return` comes out of what exposes no `return` statement. -/
theorem Moment.Ends.returns_ne_nil {x : Moment ι} {v : Value ι} {m : Machine ι}
    (h : x.Ends limit (.error (.returned v)) m) : x.task.returns ≠ [] := by
  obtain ⟨_, _, e, _, -, he, -⟩ := h.passesOut
  exact List.ne_nil_of_mem he

/-- **Returns are confined.** No pending `return` comes out of a program or of a call.
One that comes out of another phrase is that of a `return` statement which the phrase
exposes: its value is the value of the statement's expression, found on the machine on
which the evaluation ends; everything between the statement and the phrase ends with
the pending `return` on that machine too; and nothing comes about later. -/
theorem returns_are_confined (limit : Option Nat) (m : Machine ι) :
    (∀ p env v m', m.evaluate limit (.program p) env ≠ some (.error (.returned v), m')) ∧
    (∀ callee args v m', (call limit callee args).exec m ≠ some (.error (.returned v), m')) ∧
    ∀ phrase env v m', m.evaluate limit phrase env = some (.error (.returned v), m') →
      ∃ place frame e m₁,
        Moment.Course limit ⟨phrase.task env, m⟩ place ⟨.statement frame (.ret e), m₁⟩ ∧
        e ∈ (phrase.task env).returns ∧
        Moment.Ends limit ⟨.expression frame e, m₁⟩ (.ok v) m' ∧
        (∀ c w, c <+: place → Moment.Course limit ⟨phrase.task env, m⟩ c w →
          w.Ends limit (.error (.returned v)) m') ∧
        ∀ place' w, Moment.Course limit ⟨phrase.task env, m⟩ place' w → ¬ place'.Later place := by
  refine ⟨fun p env v m' h => ?_, fun callee args v m' h => ?_, fun phrase env v m' h => ?_⟩
  · exact (Machine.evaluate_eq_some_iff.1 h).returns_ne_nil rfl
  · have hends : Moment.Ends limit ⟨.apply callee args, m⟩ (.error (.returned v)) m' := h
    exact hends.returns_ne_nil rfl
  · obtain ⟨place, frame, e, m₁, hcourse, he, hvalue, hway⟩ :=
      (Machine.evaluate_eq_some_iff.1 h).passesOut
    refine ⟨place, frame, e, m₁, hcourse, he, hvalue, hway, fun place' w hw => ?_⟩
    exact hcourse.not_later (fun c w hc hw => ⟨_, _, hway c w hc hw⟩) hw

/-- A `return` in a branch inside an operand of an element: the other operand, the next
element and the next statement, which all print, are not evaluated. -/
theorem returns_are_confined_in_an_element :
    let log (s : String) : Expr Unit := .call (.ident "log") [.str s]
    let branch : Expr Unit := .cond (.bool true) [.ret (.int 2), .expr (log "a")] none
    let b : Block Unit := [.expr (.array [.binary .add branch (log "b"), log "c"]), .expr (log "d")]
    let m : Machine Unit := Machine.fresh (.buffer "")
    ∃ m', m.evaluate none (.block b) Machine.root = some (.error (.returned (.int 2)), m') ∧
      m'.printer = .buffer "" ∧
      ∃ place frame e m₁,
        Moment.Course none ⟨.block Machine.root b, m⟩ place ⟨.statement frame (.ret e), m₁⟩ ∧
        e ∈ Stmt.returnsList b ∧ Moment.Ends none ⟨.expression frame e, m₁⟩ (.ok (.int 2)) m' ∧
        ∀ place' w, Moment.Course none ⟨.block Machine.root b, m⟩ place' w →
          ¬ place'.Later place := by
  intro log branch b m
  have hrun : (m.evaluate none (.block b) Machine.root).map (fun r => (r.1, r.2.printer)) =
      some (.error (.returned (.int 2)), .buffer "") :=
    Machine.map_evaluate_of_nested 0 rfl
  obtain ⟨⟨o, m'⟩, h, heq⟩ := Option.map_eq_some_iff.1 hrun
  obtain ⟨rfl, hprinter⟩ := Prod.mk.inj heq
  obtain ⟨place, frame, e, m₁, hcourse, he, hvalue, -, hlast⟩ :=
    (returns_are_confined none m).2.2 _ _ _ _ h
  exact ⟨m', h, hprinter, place, frame, e, m₁, hcourse, he, hvalue, hlast⟩

end Monkey
