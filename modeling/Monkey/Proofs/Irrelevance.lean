import Monkey.Eval.Approximation
import Monkey.Proofs.Pairing
import Monkey.Proofs.SideBySide

/-!
# Monkey — names that a program does not mention

A program looks a name up only where it stands as an identifier, in its own text or in
that of a closure, and closures are made of its own text. So two root environments that
agree on its identifiers are the same to it, whatever else they bind
(`unread_names_are_irrelevant`). A name that a `let` of the program binds in its root is
bound in both runs at the same moment, to alike values, so in the end the roots agree on
such names too, although they may not have agreed on them before.
-/

namespace Monkey

variable {ι : Type} {limit : Option Nat}

/-- In the course of a moment a `let` binds the name in the frame. -/
def Moment.Binds (limit : Option Nat) (x : Moment ι) (env : FrameId) (name : String) : Prop :=
  ∃ (place : Place) (e : Expr ι) (m₁ : Machine ι) (v : Value ι) (m₂ : Machine ι),
    x.Course limit place ⟨.statement env (.bind name e), m₁⟩ ∧
    Ends limit ⟨.statement env (.bind name e), m₁⟩ (.ok v) m₂

section Binds

variable {P : Pairing} {R : Set String} {p q : Printer} {w : Nat × Set String}

/-- Two `let` statements in frames that belong together and are written end alike, and
from then on the name looks alike. -/
theorem Stmt.bind_mirrorsAt {a b : FrameId} {name : String} {e : Expr ι} {m n m₂ : Machine ι}
    {v : Value ι} (hmn : m.Paired limit P R p q w n) (hopen : P.Open a b)
    (hframes : ∀ access ∈ (Stmt.bind name e).accesses,
      (Mirror.paired ι limit P R p q).Frames w a b access)
    (hends : ((Stmt.bind name e).eval (call limit) a).exec m = some (.ok v, m₂)) :
    let M := Mirror.paired ι limit P R p q
    ∃ w₂, w ≤ w₂ ∧ name ∈ w₂.2 ∧ M.MirrorsAt w₂ M.Values ((Stmt.bind name e).eval (call limit) a)
      ((Stmt.bind name e).eval (call limit) b) m n := by
  intro M
  obtain ⟨-, he⟩ := List.forall_mem_cons.1 hframes
  obtain ⟨u, m₁, hu, hrest⟩ | ⟨i, -, hi⟩ := EvalM.exec_bind_eq_some.1 hends
  · cases hrest
    obtain ⟨w₁, v', n₁, hw₁, hu', hmn₁, hv⟩ :=
      (Expr.eval_mirrors (call_mirrors M) e he).landed.ok_at hmn hu
    have hends' : ((Stmt.bind name e).eval (call limit) b).exec n =
        some (.ok v', n₁.bind b name v') := EvalM.exec_bind_of_ok hu' _
    refine ⟨(w₁.1, insert name w₁.2), ⟨hw₁.1, hw₁.2.trans (Set.subset_insert name _)⟩, .inl rfl, ?_⟩
    intro r m' hr
    cases hr.symm.trans hends
    exact ⟨_, _, _, le_refl _, hends', hmn₁.bind_open hopen hv, .ok hv⟩
  · cases hi

/-- Where alike moments end and a `let` has bound the name meanwhile in a frame that both
runs write, the name looks alike in the end. -/
theorem Moment.Binds.ends_alike {x : Moment ι} {a : Nat} {name : String}
    (h : x.Binds limit a name) (ha : a < P.left) {t' : Task ι x.kind} {n m' : Machine ι}
    {r : Except (Interrupt ι) (x.kind.Answer ι)}
    (ht : (Mirror.paired ι limit P R p q).Tasks w x.task t')
    (hmn : x.machine.Paired limit P R p q w n) (hends : x.Ends limit r m') :
    ∃ w' r' n', Ends limit ⟨t', n⟩ r' n' ∧ m'.Paired limit P R p q w' n' ∧ name ∈ w'.2 := by
  obtain ⟨place, e, m₁, v, m₂, hcourse, hbind⟩ := h
  obtain ⟨w₁, u, n₁, hw₁, -, hu, hmn₁, hback⟩ := hcourse.alike ht hmn
  cases hu with
  | @statement _ b _ hframes =>
    have hopen : P.Open a b := by
      rcases (hframes _ List.mem_cons_self).2.2 name rfl with hopen | ⟨k, -, hk, -⟩
      · exact hopen
      · exact absurd ha (Nat.not_lt.2 (hk ▸ Nat.le_add_right P.left k))
    obtain ⟨w₂, hw₂, hname, hmirrors⟩ := Stmt.bind_mirrorsAt hmn₁ hopen hframes hbind
    obtain ⟨w₃, r', n', hw₃, hends', hmn', -⟩ := hback w₂ hw₂ hmirrors _ _ hends
    exact ⟨w₃, r', n', hends', hmn', hw₃.2 hname⟩

end Binds

/-! ## Programs in two root environments -/

/-- Frames of two runs that belong together: the roots `a` and `b`, and those that the
runs on the machines `m` and `n` make as the ones of the same number. -/
def Counterparts (m n : Machine ι) (a b i j : Nat) : Prop :=
  (i = a ∧ j = b) ∨ ∃ k, i = m.store.next + k ∧ j = n.store.next + k

section Roots

variable {m n : Machine ι} {a b : Nat} {f g : Frame ι}

theorem Pairing.Linked.counterparts {ha : a < m.store.next} {hb : b < n.store.next} {c i j : Nat}
    (h : (Pairing.roots ha hb).Linked c i j) : Counterparts m n a b i j := by
  rcases h with hroots | ⟨k, -, hi, hj⟩
  · exact .inl hroots
  · exact .inr ⟨k, hi, hj⟩

theorem Counterparts.eq {i j : Nat} (h : Counterparts m n a b i j) (hroots : b = a)
    (hnext : n.store.next = m.store.next) : j = i := by
  rcases h with ⟨rfl, rfl⟩ | ⟨k, rfl, rfl⟩
  · exact hroots
  · rw [hnext]

/-- Two roots without functions look alike, as far as they bind the same. -/
theorem Store.paired_roots {s t : Store ι} (hf : s.frames[a]? = some f)
    (hg : t.frames[b]? = some g) (hfroot : f.parent = none) (hgroot : g.parent = none)
    (hvalues : ∀ binding ∈ f.bindings, binding.2.captured = []) {R : Set String}
    (hagree : ∀ x ∈ R, g.get? x = f.get? x) :
    s.Paired (.roots (lt_next_of_frames hf) (lt_next_of_frames hg)) R 0 R t where
  next_left := rfl
  next_right := rfl
  old := by
    rintro _ _ x ⟨rfl, rfl⟩ hx
    rw [lookup_of_root hf hfroot, lookup_of_root hg hgroot, hagree x hx]
    cases hv : f.get? x with
    | none => exact .none
    | some v =>
      obtain ⟨before, after, heq, -⟩ := List.lookup_eq_some_iff.1 hv
      have hcaptured : v.captured = [] :=
        hvalues (x, v) (heq ▸ List.mem_append_right _ List.mem_cons_self)
      exact .some (Value.alike_self (by rw [hcaptured]; nofun))
  made := by
    rintro _ _ ⟨k, hk, -⟩
    exact absurd hk (Nat.not_lt_zero k)

end Roots

/-- **Names that a program does not mention are irrelevant.** Let two roots agree on every
name that stands in a program as an identifier, and bind no functions. Under every limit
the program finishes in both or in neither. If it finishes, it ends with the same error
or with values that are alike, and equal where the frames of the two stores have the same
numbers; it prints the same text; all that it binds in frames of its own is alike; and in
the end the roots agree on those names, and on the names that its `let` statements have
bound there. -/
theorem unread_names_are_irrelevant (limit : Option Nat) (p : Program ι) {m n : Machine ι}
    {a b : Nat} {f g : Frame ι} (hf : m.store.frames[a]? = some f)
    (hg : n.store.frames[b]? = some g) (hfroot : f.parent = none) (hgroot : g.parent = none)
    (hvalues : ∀ binding ∈ f.bindings, binding.2.captured = [])
    (hagree : ∀ x, p.Reads x → g.get? x = f.get? x) (hdepth : n.depth = m.depth) :
    let Same := Counterparts m n a b
    (m.run limit p a = none ↔ n.run limit p b = none) ∧
    ∀ result m₁, m.run limit p a = some (result, m₁) → ∃ result' n₁ text,
      n.run limit p b = some (result', n₁) ∧
      ((∃ err, result = .error err ∧ result' = .error err) ∨
        ∃ v v', result = .ok v ∧ result' = .ok v' ∧ v.Alike (fun _ => Same) v' ∧
          v'.type = v.type ∧ v'.render = v.render) ∧
      (b = a → n.store.next = m.store.next → result' = result) ∧
      m₁.printer = m.printer.append text ∧ n₁.printer = n.printer.append text ∧
      (∃ f' g', m₁.store.frames[a]? = some f' ∧ n₁.store.frames[b]? = some g' ∧
        ∀ x, p.Reads x ∨ Moment.Binds limit ⟨.program a p.statements, m⟩ a x →
          Option.Rel (Value.Alike fun _ => Same) (f'.get? x) (g'.get? x)) ∧
      ∀ k, Option.Rel (Frame.Paired (fun _ => Same) Same) m₁.store.frames[m.store.next + k]?
        n₁.store.frames[n.store.next + k]? := by
  intro Same
  let P : Pairing := .roots (Store.lt_next_of_frames hf) (Store.lt_next_of_frames hg)
  let R : Set String := {x | p.Reads x}
  let M := Mirror.paired ι limit P R m.printer n.printer
  have hstart : m.Paired limit P R m.printer n.printer (0, R) n :=
    ⟨subset_rfl, Store.paired_roots hf hg hfroot hgroot hvalues hagree,
      ⟨"", m.printer.append_empty.symm, n.printer.append_empty.symm⟩, fun _ => hdepth⟩
  have hframes : ∀ access ∈ Stmt.accessesList p.statements, M.Frames (0, R) a b access :=
    Mirror.frames_roots _ _ fun _ hx => hx
  have hmatched := Program.eval_matched p hstart hframes
  have hsame : ∀ {c i j}, P.Linked c i j → Same i j := fun h => h.counterparts
  refine ⟨?_, fun result m₁ hrun => ?_⟩
  · rw [Machine.run, Machine.run, Option.map_eq_none_iff, Option.map_eq_none_iff]
    exact hmatched.none_iff
  obtain ⟨⟨o, _⟩, hexec, heq⟩ := Option.map_eq_some_iff.1 hrun
  cases heq
  obtain ⟨w, o', n₁, -, hexec', hends, hoo'⟩ := hmatched.of_some hexec
  obtain ⟨text, hprinted, hprinted'⟩ := hends.printed
  have hresults := Outcome.Alike.result hoo'
  refine ⟨Outcome.result o', n₁, text, ?_, ?_, ?_, hprinted, hprinted', ?_, fun k => ?_⟩
  · exact Option.map_eq_some_iff.2 ⟨(o', n₁), hexec', rfl⟩
  · rcases hresults.error_or_ok with herr | ⟨v, v', ho, ho', hv⟩
    · exact .inl herr
    · exact .inr ⟨v, v', ho, ho', hv.mono fun _ _ _ h => hsame h.1, hv.type_eq, hv.render_eq⟩
  · intro hroots hnext
    exact hresults.eq_of fun _ _ _ h => (hsame h.1).eq hroots hnext
  · obtain ⟨f', hf', hfroot', -⟩ :=
      ((Phrase.program p).eval_writesOnly limit a m o m₁ hexec).own f hf
    obtain ⟨g', hg', hgroot', -⟩ :=
      ((Phrase.program p).eval_writesOnly limit b n o' n₁ hexec').own g hg
    rw [hfroot] at hfroot'
    rw [hgroot] at hgroot'
    -- in every world in which the ends are alike, the roots agree on the names of that world
    have hroots : ∀ w, m₁.Paired limit P R m.printer n.printer w n₁ → ∀ x ∈ w.2,
        Option.Rel (Value.Alike fun _ => Same) (f'.get? x) (g'.get? x) := by
      intro w h x hx
      exact optionRel_mono (fun _ _ hv => hv.mono fun _ _ _ h => hsame h.1)
        (h.store.get?_root ⟨rfl, rfl⟩ hf' hg' hfroot' hgroot' hx)
    refine ⟨f', g', hf', hg', fun x hx => ?_⟩
    rcases hx with hreads | hbinds
    · exact hroots w hends x (hends.reads hreads)
    · obtain ⟨w', o₂, n₂, hexec₂, hends', hx⟩ := hbinds.ends_alike
        (Store.lt_next_of_frames hf) (.program hframes) hstart hexec
      cases hexec'.symm.trans hexec₂
      exact hroots w' hends' x hx
  · refine optionRel_mono (fun f g hfg => ?_) (hends.store.frames k)
    exact hfg.mono (fun _ _ _ h => hsame h.1) fun _ _ h => hsame h

attribute [local semireducible] Pending.write Store.lookup

/-- The name of a builtin that the program does not use is bound in one of the roots, and
so is a name that the program binds itself. -/
theorem unread_names_are_irrelevant_for_a_builtin :
    let g : FnLiteral Unit := ⟨(), [], [.expr (.ident "x")]⟩
    let p : Program Unit :=
      ⟨[.bind "y" (.fn g), .expr (.call (.ident "log") [.ident "x"]), .expr (.ident "x")]⟩
    let m : Machine Unit := (Machine.fresh (.buffer "")).bind Machine.root "x" (.int 1)
    let n : Machine Unit :=
      (m.bind Machine.root "len" (.builtin .first)).bind Machine.root "y" (.str "old")
    ∃ m₁ n₁ f' g', m.run none p Machine.root = some (.ok (.int 1), m₁) ∧
      n.run none p Machine.root = some (.ok (.int 1), n₁) ∧
      m₁.printer = .buffer "1\n" ∧ n₁.printer = .buffer "1\n" ∧
      m₁.store.frames[Machine.root]? = some f' ∧ n₁.store.frames[Machine.root]? = some g' ∧
      (f'.get? "y").isSome ∧ Option.Rel (Value.Alike fun _ => Counterparts m n 0 0) (f'.get? "y")
        (g'.get? "y") := by
  intro g p m n
  have hruns : (m.run none p Machine.root).map (fun r => (r.1, r.2.printer,
      (r.2.store.frames[Machine.root]?.bind fun f => f.get? "y").isSome)) =
      some (.ok (.int 1), .buffer "1\n", true) :=
    Machine.map_run_of_nested 1 rfl
  obtain ⟨⟨result, m₁⟩, hrun, heq⟩ := Option.map_eq_some_iff.1 hruns
  obtain ⟨rfl, heq⟩ := Prod.mk.inj heq
  obtain ⟨hprinter, hbound⟩ := Prod.mk.inj heq
  let f : Frame Unit := ⟨[("x", .int 1)], none⟩
  let f₁ : Frame Unit := ⟨[("x", .int 1), ("len", .builtin .first), ("y", .str "old")], none⟩
  have hf : m.store.frames[Machine.root]? = some f := rfl
  have hf₁ : n.store.frames[Machine.root]? = some f₁ := rfl
  have hagree : ∀ x, p.Reads x → f₁.get? x = f.get? x := by
    intro x hx
    have hnames : x = "x" ∨ x = "log" ∨ x = "x" := by
      simpa [Program.Reads, p, g, Stmt.occurrencesList, Stmt.occurrences, Expr.occurrences,
        Expr.occurrencesList, FnLiteral.occurrences] using hx
    rcases hnames with rfl | rfl | rfl <;> rfl
  have hbinds : Moment.Binds none ⟨.program Machine.root p.statements, m⟩ Machine.root "y" :=
    ⟨[.part 0], .fn g, m, _, _, .inside .programFirst .here, rfl⟩
  have hvalues : ∀ binding ∈ f.bindings, binding.2.captured = [] :=
    List.forall_mem_singleton.2 rfl
  obtain ⟨result', n₁, text, hrun', -, hequal, htext, htext', ⟨f', g', hf', hg', hroots⟩, -⟩ :=
    (unread_names_are_irrelevant none p hf hf₁ rfl rfl hvalues hagree rfl).2 _ _ hrun
  obtain rfl := hequal rfl rfl
  rw [hf'] at hbound
  exact ⟨m₁, n₁, f', g', hrun, hrun', hprinter, (htext'.trans htext.symm).trans hprinter, hf', hg',
    hbound, hroots "y" (.inr hbinds)⟩

end Monkey
