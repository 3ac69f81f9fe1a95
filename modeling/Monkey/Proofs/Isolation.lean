import Monkey.Eval.Approximation
import Monkey.Proofs.Preservation

/-!
# Monkey — who writes which frame

A call works in a frame of its own, so it leaves every frame there was before it
alone, also the frame its callee captured (`call_extends`). What is left is the
`let` statements that an evaluation reaches without entering a function literal:
they bind their names in the frame of the evaluation and nowhere else
(`writes_are_local`).
-/

namespace Monkey

variable {ι : Type}

/-! ## The two effects -/

/-- The second store has every frame of the first as it was, and maybe more. -/
structure Store.Extends (s s' : Store ι) : Prop where
  next_le : s.next ≤ s'.next
  frames_eq : ∀ id < s.next, s'.frames[id]? = s.frames[id]?

/-- The second store has every frame of the first as it was, except that names
which are `Bound` may have been bound in the frame `env`. -/
structure Store.WritesOnly (env : FrameId) (Bound : String → Prop) (s s' : Store ι) : Prop where
  next_le : s.next ≤ s'.next
  frames_eq : ∀ id < s.next, id ≠ env → s'.frames[id]? = s.frames[id]?
  own : ∀ f, s.frames[env]? = some f →
    ∃ f', s'.frames[env]? = some f' ∧ f'.parent = f.parent ∧
      ∀ x, ¬ Bound x → f'.get? x = f.get? x

theorem Store.Extends.refl (s : Store ι) : s.Extends s := ⟨Nat.le_refl _, fun _ _ => rfl⟩

theorem Store.Extends.trans {s s' s'' : Store ι} (h : s.Extends s') (h' : s'.Extends s'') :
    s.Extends s'' where
  next_le := Nat.le_trans h.next_le h'.next_le
  frames_eq id hid := by
    rw [h'.frames_eq id (Nat.lt_of_lt_of_le hid h.next_le), h.frames_eq id hid]

theorem Store.lt_next_of_frames {s : Store ι} {id : FrameId} {f : Frame ι}
    (h : s.frames[id]? = some f) : id < s.next := by
  obtain ⟨hlt, -⟩ := Array.getElem?_eq_some_iff.1 h
  exact hlt

/-- What extends a store writes nothing. -/
theorem Store.Extends.writesOnly {s s' : Store ι} (h : s.Extends s') (env : FrameId)
    (Bound : String → Prop) : s.WritesOnly env Bound s' where
  next_le := h.next_le
  frames_eq id hid _ := h.frames_eq id hid
  own f hf := ⟨f, by rw [h.frames_eq env (lt_next_of_frames hf), hf], rfl, fun _ _ => rfl⟩

namespace Store.WritesOnly

variable {env : FrameId} {Bound : String → Prop} {s s' s'' : Store ι}

theorem trans (h : s.WritesOnly env Bound s') (h' : s'.WritesOnly env Bound s'') :
    s.WritesOnly env Bound s'' where
  next_le := Nat.le_trans h.next_le h'.next_le
  frames_eq id hid hne := by
    rw [h'.frames_eq id (Nat.lt_of_lt_of_le hid h.next_le) hne, h.frames_eq id hid hne]
  own f hf := by
    obtain ⟨f', hf', hparent', hget'⟩ := h.own f hf
    obtain ⟨f'', hf'', hparent'', hget''⟩ := h'.own f' hf'
    refine ⟨f'', hf'', hparent''.trans hparent', fun x hx => ?_⟩
    rw [hget'' x hx, hget' x hx]

/-- A `let` binds its name in the frame it is executed in. -/
theorem bind (s : Store ι) {x : String} (hx : Bound x) (v : Value ι) :
    s.WritesOnly env Bound (s.bind env x v) where
  next_le := Nat.le_of_eq (s.next_bind env x v).symm
  frames_eq id _ hne := by rw [Store.frames_bind, if_neg (Ne.symm hne)]
  own f hf := by
    refine ⟨f.bind x v, ?_, f.parent_bind x v, fun y hy => ?_⟩
    · rw [Store.frames_bind, if_pos rfl, hf]
      rfl
    · rw [Frame.get?_bind, if_neg]
      rintro rfl
      exact hy hx

end Store.WritesOnly

/-- Evaluation of a tree writes as its `let` statements do, if calls write
nothing. -/
theorem Store.WritesOnly.compatible (env : FrameId) (Bound : String → Prop) :
    EvalM.Compatible (ι := ι) env Bound fun _ x _ =>
      x.Keeps fun m m' => m.store.WritesOnly env Bound m'.store :=
  EvalM.Keeps.compatible (fun m => (Store.Extends.refl m.store).writesOnly env Bound)
    (fun h h' => h.trans h') fun m _ v hx => Store.WritesOnly.bind m.store hx v

/-! ## Calls and phrases -/

/-- A call leaves every frame there was alone: the body of a function writes the
frame made for the call, and inner calls write nothing either. -/
theorem call_extends (limit : Option Nat) (callee : Value ι) (args : List (Value ι)) :
    (call limit callee args).Keeps fun m m' => m.store.Extends m'.store := by
  refine call_keeps (fun _ => .refl _) (fun _ _ _ => .refl _) ?_ limit callee args
  intro c hc m m' f env args o hbody
  -- inner calls write nothing, so the body writes its own frame alone, and that is a new one
  have hinner : ∀ v vs, (c v vs).Keeps fun a b =>
      a.store.WritesOnly m.store.next (fun _ => True) b.store :=
    fun v vs a r b h => (hc v vs a r b h).writesOnly _ _
  have hwrites : (m.store.enter f env args).WritesOnly m.store.next (fun _ => True) m'.store :=
    Block.eval_rel (d := c) (Store.WritesOnly.compatible _ _) hinner f.body (fun _ _ => trivial)
      _ _ _ hbody
  refine ⟨?_, fun id hid => ?_⟩
  · have hle := hwrites.next_le
    rw [Store.next_enter] at hle
    exact Nat.le_of_succ_le hle
  · rw [← m.store.frames_enter_of_lt hid f env args]
    refine hwrites.frames_eq id ?_ (Nat.ne_of_lt hid)
    rw [Store.next_enter]
    exact Nat.lt_succ_of_lt hid

theorem Phrase.eval_writesOnly (limit : Option Nat) (env : FrameId) (phrase : Phrase ι) :
    (phrase.eval (call limit) env).Keeps fun m m' =>
      m.store.WritesOnly env (· ∈ phrase.lets) m'.store :=
  phrase.eval_rel (d := call limit) (Store.WritesOnly.compatible env _)
    (fun v vs m r m' h => (call_extends limit v vs m r m' h).writesOnly env _) fun _ hx => hx

/-- A phrase without `let` statements outside its function literals leaves every frame
there was alone. -/
theorem Phrase.eval_extends (limit : Option Nat) (env : FrameId) (phrase : Phrase ι)
    (h : phrase.lets = []) :
    (phrase.eval (call limit) env).Keeps fun m m' => m.store.Extends m'.store := by
  have hcompatible : EvalM.Compatible (ι := ι) env (fun _ => False) fun _ x _ =>
      x.Keeps fun m m' => m.store.Extends m'.store :=
    EvalM.Keeps.compatible (fun m => .refl m.store) (fun h h' => h.trans h') nofun
  refine phrase.eval_rel (d := call limit) hcompatible (call_extends limit) ?_
  rw [h]
  exact nofun

/-- **Writes are local.** Whatever its outcome, an evaluation in a frame leaves
every other frame there was with the same bindings and the same parent; its own
frame keeps its parent and the value of every name but those of the `let`
statements outside function literals. A call leaves every frame there was as it
was, also the one its callee captured. -/
theorem writes_are_local (limit : Option Nat) (m : Machine ι) :
    (∀ phrase env o m', m.evaluate limit phrase env = some (o, m') →
      (∀ id < m.store.next, id ≠ env → m'.store.frames[id]? = m.store.frames[id]?) ∧
      ∀ f, m.store.frames[env]? = some f → ∃ f', m'.store.frames[env]? = some f' ∧
        f'.parent = f.parent ∧ ∀ x, x ∉ phrase.lets → f'.get? x = f.get? x) ∧
    ∀ callee args o m', (call limit callee args).exec m = some (o, m') →
      ∀ id < m.store.next, m'.store.frames[id]? = m.store.frames[id]? := by
  constructor
  · intro phrase env o m' h
    have hwrites := phrase.eval_writesOnly limit env m o m' h
    exact ⟨hwrites.frames_eq, hwrites.own⟩
  · intro callee args o m' h
    exact (call_extends limit callee args m o m' h).frames_eq

attribute [local semireducible] Store.lookup

/-- A function that binds a name of the frame it captured, called where the name
is bound already: by a program that binds another name meanwhile, and directly. -/
theorem writes_are_local_shadowing :
    let f : FnLiteral Unit := ⟨(), [], [.bind "x" (.int 2), .expr (.ident "x")]⟩
    let p : Program Unit := ⟨[.bind "y" (.call (.fn f) []), .expr (.ident "x")]⟩
    let m : Machine Unit := (Machine.fresh .silent).bind Machine.root "x" (.int 1)
    (∃ m', m.evaluate (some 1) (.program p) Machine.root = some (.ok (.int 1), m') ∧
      (∀ id < m.store.next, id ≠ Machine.root → m'.store.frames[id]? = m.store.frames[id]?) ∧
      ∀ g, m.store.frames[Machine.root]? = some g → ∃ g', m'.store.frames[Machine.root]? = some g' ∧
        g'.parent = g.parent ∧ ∀ x, x ∉ ["y"] → g'.get? x = g.get? x) ∧
    ∃ m', (call (some 1) (.closure f Machine.root) []).exec m = some (.ok (.int 2), m') ∧
      ∀ id < m.store.next, m'.store.frames[id]? = m.store.frames[id]? := by
  intro f p m
  have hrun : (m.evaluate (some 1) (.program p) Machine.root).map (·.1) = some (.ok (.int 1)) :=
    Machine.map_evaluate_of_nested 1 rfl
  have hcall : ((call (some 1) (.closure f Machine.root) []).exec m).map (·.1) =
      some (.ok (.int 2)) := map_exec_call_of_nested 1 rfl
  obtain ⟨⟨o, m₁⟩, h₁, rfl⟩ := Option.map_eq_some_iff.1 hrun
  obtain ⟨⟨o, m₂⟩, h₂, rfl⟩ := Option.map_eq_some_iff.1 hcall
  exact ⟨⟨m₁, h₁, (writes_are_local (some 1) m).1 _ _ _ _ h₁⟩,
    m₂, h₂, (writes_are_local (some 1) m).2 _ _ _ _ h₂⟩

end Monkey
