import Monkey.Eval.Approximation
import Monkey.Proofs.Isolation
import Monkey.Proofs.Pairing

/-!
# Monkey — function definitions can be moved

A function literal captures the frame in hand itself and no copy of it, so nothing is
lost or gained if it is evaluated earlier than it is needed. What stands between the two
places and does not mention the name of the definition goes the same way with and
without it, and from the second place on the two runs are on the same frames
(`definitions_hoist`). The first half of the argument is a mirror that may not read the
name, the second half one that may read every name.
-/

namespace Monkey

variable {ι : Type} {limit : Option Nat}

/-! ## Statements in order -/

section Statements

variable {c : Value ι → List (Value ι) → EvalM ι (Value ι)} {env : FrameId}

/-- Where there are statements, the value is not the one given for none. -/
theorem Stmt.evalFrom_of_ne_nil {ss : List (Stmt ι)} (h : ss ≠ []) (last : Value ι) :
    Stmt.evalFrom c env last ss = Block.eval c env ss := by
  cases ss with
  | nil => exact absurd rfl h
  | cons s ss => rfl

/-- The value of statements in order is that of the last ones, if there are any. -/
theorem Stmt.evalFrom_append {ss ts : List (Stmt ι)} (h : ts ≠ []) (last : Value ι) :
    Stmt.evalFrom c env last (ss ++ ts) = (do
      let _ ← Stmt.evalFrom c env last ss
      Block.eval c env ts) := by
  induction ss generalizing last with
  | nil => rw [List.nil_append, evalFrom_of_ne_nil h, Stmt.evalFrom, pure_bind]
  | cons s ss ih =>
    rw [List.cons_append, Stmt.evalFrom, Stmt.evalFrom, bind_assoc]
    exact bind_congr ih

/-- A definition that comes before others binds its closure first. -/
theorem Block.exec_define (name : String) (f : FnLiteral ι) {ss : List (Stmt ι)} (h : ss ≠ [])
    (m : Machine ι) :
    (Block.eval c env (.bind name (.fn f) :: ss)).exec m =
      (Block.eval c env ss).exec (m.bind env name (.closure f env)) := by
  rw [← Stmt.evalFrom_of_ne_nil h (.closure f env)]
  rfl

end Statements

/-! ## Frames with the same bindings -/

/-- Two frames have the same bindings, and the same frame around them. -/
structure Frame.Same (f g : Frame ι) : Prop where
  parent_eq : g.parent = f.parent
  get?_eq (x : String) : g.get? x = f.get? x

theorem Frame.Same.refl (f : Frame ι) : f.Same f := ⟨rfl, fun _ => rfl⟩

theorem optionRel_refl {α : Type} {V : α → α → Prop} (h : ∀ a, V a a) (x : Option α) :
    Option.Rel V x x := by
  cases x with
  | none => exact .none
  | some a => exact .some (h a)

section Equal

variable {C : FnLiteral ι → FrameId → FrameId → Prop} {L : FrameId → FrameId → Prop}

theorem optionRel_alike_eq (hC : ∀ f a b, C f a b → b = a) {x y : Option (Value ι)}
    (h : Option.Rel (Value.Alike C) x y) : y = x := by
  cases h with
  | none => rfl
  | some hv => exact congrArg some (hv.eq_of_captured fun _ _ f b => hC f _ b)

theorem Frame.Paired.same (hC : ∀ f a b, C f a b → b = a) (hL : ∀ a b, L a b → b = a)
    {f g : Frame ι} (h : f.Paired C L g) : f.Same g where
  parent_eq := by
    have hparent := h.parent
    generalize f.parent = p, g.parent = q at hparent ⊢
    cases hparent with
    | none => rfl
    | some hpq => exact congrArg some (hL _ _ hpq)
  get?_eq x := optionRel_alike_eq hC (h.get? x)

end Equal

/-! ## Two runs in roots of the same number -/

/-- Two runs begin in the root that was made last. -/
abbrev Pairing.root (r : Nat) : Pairing := .roots (Nat.lt_succ_self r) (Nat.lt_succ_self r)

section Roots

variable {r c : Nat} {R N : Set String} {a b : FrameId} {s t : Store ι} {f g : Frame ι}

/-- Frames belong to those of the same number. -/
theorem Pairing.Linked.eq (h : (Pairing.root r).Linked c a b) : b = a := by
  rcases h with ⟨rfl, rfl⟩ | ⟨k, -, rfl, rfl⟩ <;> rfl

theorem Store.Paired.root_same (h : s.Paired (.root r) R c N t) (hN : ∀ x, x ∈ N)
    (hf : s.frames[r]? = some f) (hg : t.frames[r]? = some g) (hf' : f.parent = none)
    (hg' : g.parent = none) : f.Same g where
  parent_eq := hg'.trans hf'.symm
  get?_eq x := optionRel_alike_eq (fun _ _ _ hab => hab.1.eq)
    (h.get?_root ⟨rfl, rfl⟩ hf hg hf' hg' (hN x))

theorem Machine.Paired.printer_eq {P : Pairing} {p : Printer} {w : Nat × Set String}
    {m n : Machine ι} (h : m.Paired limit P R p p w n) : n.printer = m.printer := by
  obtain ⟨text, hp, hq⟩ := h.printed
  exact hq.trans hp.symm

theorem Store.root_define (s : Store ι) (name : String) (f : FnLiteral ι) :
    ((s.push none).bind s.next name (.closure f s.next)).frames[s.next]? =
      some ((Frame.empty none).bind name (.closure f s.next)) := by
  rw [frames_bind, if_pos rfl, s.frames_push_root, Option.map_some]

/-- A fresh root looks the same with a definition and without it, but for the name of
the definition. -/
theorem Store.paired_define (s : Store ι) (name : String) (f : FnLiteral ι) :
    ((s.push none).bind s.next name (.closure f s.next)).Paired (.root s.next) {x | x ≠ name} 0
      {x | x ≠ name} (s.push none) where
  next_left := by rw [next_bind, next_push]; rfl
  next_right := s.next_push none
  old := by
    rintro _ _ x ⟨rfl, rfl⟩ hx
    have hlt : s.next < (s.push none).next := by rw [next_push]; exact Nat.lt_succ_self _
    rw [lookup_bind_self _ hlt, if_neg hx, lookup_of_root s.frames_push_root rfl]
    exact .none
  made := by
    rintro _ _ ⟨k, hk, -⟩
    exact absurd hk (Nat.not_lt_zero k)

/-- Once the second run has the definition too, every name looks the same. -/
theorem Machine.Paired.define {p q : Printer} {w : Nat × Set String} {m n : Machine ι}
    {name : String} {lit : FnLiteral ι} (h : m.Paired limit (.root r) {x | x ≠ name} p q w n)
    (hf : m.store.frames[r]? = some f) (hname : f.get? name = some (.closure lit r)) :
    m.Paired limit (.root r) Set.univ p q (w.1, Set.univ) (n.bind r name (.closure lit r)) where
  reads := subset_rfl
  store := by
    have hclosure : (Value.closure lit r).Alike ((Pairing.root r).Captured Set.univ w.1)
        (.closure lit r) := .closure ⟨.inl ⟨rfl, rfl⟩, fun _ _ => trivial⟩
    have hbind := (h.store.widen (Set.subset_univ _)).bind_open (x := name) ⟨rfl, rfl⟩ hclosure
    rw [Store.bind_eq_self hf hname] at hbind
    have huniv : insert name w.2 = Set.univ := by
      refine Set.eq_univ_of_forall fun x => ?_
      by_cases hx : x = name
      · exact .inl hx
      · exact .inr (h.reads hx)
    rw [huniv] at hbind
    exact hbind
  printed := h.printed
  depth_eq := h.depth_eq

end Roots

/-! ## A definition before or after other statements -/

/-- The block with the definition before other statements and the block with the
definition after them: where both finish they have the same result and the same text,
and paired stores if the statements in between have ended with a value. -/
theorem Block.hoist_define (limit : Option Nat) (m : Machine ι) (name : String)
    (f : FnLiteral ι) {S E : Block ι} (hS : ¬ Block.Mentions S name) (hE : E ≠ []) :
    let root := m.store.next
    let start := (m.addFrame none).2
    Option.Rel (fun x y => Outcome.result y.1 = Outcome.result x.1 ∧ y.2.printer = x.2.printer ∧
        ((∃ v m', start.evaluate limit (.block S) root = some (.ok v, m')) →
          ∃ c N, (∀ x, x ∈ N) ∧ x.2.store.Paired (.root root) Set.univ c N y.2.store))
      (start.evaluate limit (.block (.bind name (.fn f) :: (S ++ E))) root)
      (start.evaluate limit (.block (S ++ .bind name (.fn f) :: E)) root) := by
  intro root start
  let defined := start.bind root name (.closure f root)
  let p := m.printer
  have hearly : start.evaluate limit (.block (.bind name (.fn f) :: (S ++ E))) root =
      (do let _ ← Block.eval (call limit) root S; Block.eval (call limit) root E).exec defined := by
    have hne : S ++ E ≠ [] := List.append_ne_nil_of_right_ne_nil S hE
    rw [Machine.evaluate, Phrase.eval, Block.exec_define name f hne, Block.eval,
      Stmt.evalFrom_append hE]
    rfl
  have hlate : start.evaluate limit (.block (S ++ .bind name (.fn f) :: E)) root =
      (do
        let _ ← Block.eval (call limit) root S
        Block.eval (call limit) root (.bind name (.fn f) :: E)).exec start := by
    rw [Machine.evaluate, Phrase.eval, Block.eval, Stmt.evalFrom_append (List.cons_ne_nil _ E)]
    rfl
  -- the statements in between may not read the name, so they go the same way
  have hstart : (Mirror.paired ι limit (.root root) {x | x ≠ name} p p).Machines
      (0, {x | x ≠ name}) defined start :=
    ⟨subset_rfl, m.store.paired_define name f, ⟨"", p.append_empty.symm, p.append_empty.symm⟩,
      fun _ => rfl⟩
  have hreads : ReadsWithin (Stmt.occurrencesList S) {x | x ≠ name} := by
    rintro _ hx rfl
    exact hS ⟨_, hx, rfl⟩
  have hmatched := Block.eval_matched S hstart (Mirror.frames_roots _ _ hreads)
  rw [hearly, hlate, EvalM.exec_bind, EvalM.exec_bind]
  unfold Mirror.Matched at hmatched
  generalize hx : (Block.eval (call limit) root S).exec defined = x,
    hy : (Block.eval (call limit) root S).exec start = y at hmatched ⊢
  cases hmatched with
  | none => exact .none
  | @some x y hxy =>
    obtain ⟨o, m₁⟩ := x
    obtain ⟨o', m₂⟩ := y
    obtain ⟨w, -, hends, hoo'⟩ := hxy
    cases hoo' with
    | error hi =>
      have hresult := (Outcome.Alike.result (.error hi)).eq_of fun _ _ _ hab => hab.1.eq
      refine .some ⟨hresult, hends.printer_eq, ?_⟩
      rintro ⟨_, _, hvalue⟩
      cases hy.symm.trans hvalue
    | ok hv =>
      -- from here on both have the definition, and every name looks the same
      have hwrites := (Phrase.block S).eval_writesOnly limit root defined _ _ hx
      obtain ⟨g, hg, -, hget⟩ := hwrites.own _ (m.store.root_define name f)
      have hname : g.get? name = some (.closure f root) := by
        rw [hget name fun h => hS (Block.mentions_of_mem_lets h), Frame.get?_bind, if_pos rfl]
      have hmatched := Block.eval_matched E (hends.define hg hname)
        (Mirror.frames_roots _ _ fun _ _ => trivial)
      dsimp only
      rw [Block.exec_define name f hE]
      refine optionRel_mono ?_ hmatched
      rintro ⟨o, m₁⟩ ⟨o', m₂⟩ ⟨w, -, hends, hoo'⟩
      exact ⟨(Outcome.Alike.result hoo').eq_of fun _ _ _ hab => hab.1.eq, hends.printer_eq,
        fun _ => ⟨w.1, w.2, fun x => hends.reads trivial, hends.store⟩⟩

/-- **Function definitions hoist.** In a fresh root, on whatever machine and under
whatever limit, a definition may stand before or after statements in which its name does
not occur, if statements follow: the two programs finish both or neither, and if they do
they have the same result and print the same text. If the statements in between end with
a value, every frame has the same bindings in the end. The function may mention its own
name and all that those statements bind. -/
theorem definitions_hoist (limit : Option Nat) (m : Machine ι) (name : String) (f : FnLiteral ι)
    {S E : Block ι} (hS : ¬ Block.Mentions S name) (hE : E ≠ []) :
    let root := m.store.next
    let start := (m.addFrame none).2
    let early : Program ι := ⟨.bind name (.fn f) :: (S ++ E)⟩
    let late : Program ι := ⟨S ++ .bind name (.fn f) :: E⟩
    (start.run limit early root = none ↔ start.run limit late root = none) ∧
    ∀ result m₁, start.run limit early root = some (result, m₁) → ∃ m₂,
      start.run limit late root = some (result, m₂) ∧ m₂.printer = m₁.printer ∧
      ((∃ v m', start.evaluate limit (.block S) root = some (.ok v, m')) →
        ∀ id : FrameId, Option.Rel Frame.Same m₁.store.frames[id]? m₂.store.frames[id]?) := by
  intro root start early late
  have hends := Block.hoist_define limit m name f hS hE
  rw [Machine.run_eq, Machine.run_eq, Option.map_eq_none_iff, Option.map_eq_none_iff]
  obtain ⟨hnone, hsome⟩ := optionRel_iff.1 hends
  refine ⟨hnone, fun result m₁ h => ?_⟩
  obtain ⟨⟨o, _⟩, hearly, heq⟩ := Option.map_eq_some_iff.1 h
  cases heq
  obtain ⟨⟨o', m₂⟩, hlate, hresult, hprinter, hpaired⟩ := hsome _ hearly
  refine ⟨m₂, ?_, hprinter, fun hvalue id => ?_⟩
  · rw [hlate, ← hresult]
    rfl
  obtain ⟨c, N, hN, hpaired⟩ := hpaired hvalue
  have hwrites := (Phrase.block early.statements).eval_writesOnly limit root start _ _ hearly
  have hwrites' := (Phrase.block late.statements).eval_writesOnly limit root start _ _ hlate
  have hroot : start.store.frames[root]? = some (Frame.empty none) := m.store.frames_push_root
  have hnext : start.store.next = root + 1 := m.store.next_push none
  rcases Nat.lt_trichotomy id root with hlt | rfl | hlt
  · have hid : id < start.store.next := hnext ▸ Nat.lt_succ_of_lt hlt
    rw [hwrites.frames_eq id hid (Nat.ne_of_lt hlt), hwrites'.frames_eq id hid (Nat.ne_of_lt hlt)]
    exact optionRel_refl .refl _
  · obtain ⟨g, hg, hparent, -⟩ := hwrites.own _ hroot
    obtain ⟨g', hg', hparent', -⟩ := hwrites'.own _ hroot
    rw [hg, hg']
    exact .some (hpaired.root_same hN hg hg' hparent hparent')
  · obtain ⟨k, rfl⟩ := Nat.exists_eq_add_of_le hlt
    refine optionRel_mono (fun f g hfg => ?_) (hpaired.frames k)
    exact hfg.same (fun _ _ _ hab => hab.1.eq) fun _ _ hab => hab.eq

attribute [local semireducible] Pending.write Store.lookup

/-- A function that prints and returns a name bound only after it has been defined. -/
theorem definitions_hoist_over_a_captured_name :
    let f : FnLiteral Unit :=
      ⟨(), [], [.expr (.call (.ident "log") [.ident "x"]), .ret (.ident "x")]⟩
    let define : Stmt Unit := .bind "f" (.fn f)
    let S : Block Unit := [.bind "x" (.int 3)]
    let E : Block Unit := [.expr (.call (.ident "f") [])]
    let start : Machine Unit := (Machine.addFrame ⟨.empty, .buffer "", 0⟩ none).2
    ∃ m₁ m₂ : Machine Unit,
      start.run (some 1) ⟨define :: (S ++ E)⟩ 0 = some (.ok (.int 3), m₁) ∧
      start.run (some 1) ⟨S ++ define :: E⟩ 0 = some (.ok (.int 3), m₂) ∧
      m₁.printer = .buffer "3\n" ∧ m₂.printer = m₁.printer ∧
      ∀ id : FrameId, Option.Rel Frame.Same m₁.store.frames[id]? m₂.store.frames[id]? := by
  intro f define S E start
  have hrun : (start.run (some 1) ⟨define :: (S ++ E)⟩ 0).map (fun r => (r.1, r.2.printer)) =
      some (.ok (.int 3), .buffer "3\n") :=
    Machine.map_run_of_nested 2 rfl
  have hvalue : (start.evaluate (some 1) (.block S) 0).map (·.1) = some (.ok (.int 3)) :=
    Machine.map_evaluate_of_nested 0 rfl
  obtain ⟨⟨result, m₁⟩, hearly, heq⟩ := Option.map_eq_some_iff.1 hrun
  obtain ⟨rfl, hprinter⟩ := Prod.mk.inj heq
  obtain ⟨⟨o, m'⟩, hS, rfl⟩ := Option.map_eq_some_iff.1 hvalue
  have hmentions : ¬ Block.Mentions S "f" := by
    rintro ⟨o, ho, hname⟩
    cases List.mem_singleton.1 ho
    exact absurd hname (by decide)
  obtain ⟨m₂, hlate, hprinter', hframes⟩ :=
    (definitions_hoist (some 1) ⟨.empty, .buffer "", 0⟩ "f" f hmentions
      (List.cons_ne_nil _ [])).2 _ _ hearly
  exact ⟨m₁, m₂, hearly, hlate, hprinter, hprinter', hframes ⟨_, m', hS⟩⟩

end Monkey
