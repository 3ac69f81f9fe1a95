import Monkey.Eval.Approximation
import Monkey.Proofs.Pairing
import Monkey.Proofs.Reachable

/-!
# Monkey — immediate application

The call of a parameterless literal where it stands evaluates the body of the literal
one frame deeper, in a new frame that stays empty as long as the body has no `let` of
its own. An empty frame hides nothing, so what is seen from it is what is seen from the
frame of the call, and the two evaluations go alike, although every closure that the
body makes has an interposed frame in the one and not in the other
(`immediate_application_is_transparent`).
-/

namespace Monkey

variable {ι : Type}

/-- The frames of the evaluation of a body in the frame `r` of a store of `n` frames,
and those of the call of its literal: the old frames are the same, the empty frame `n`
stands in for `r`, and the frames made later have the next higher numbers. -/
def Interposed (r n i j : Nat) : Prop := (i < n ∧ j = i) ∨ (i = r ∧ j = n) ∨ (n ≤ i ∧ j = i + 1)

/-- The two evaluations write no old frame, nor the empty one. -/
def Pairing.interposed {r n : Nat} (hr : r < n) : Pairing where
  left := n
  right := n + 1
  Old := fun (i j : Nat) => (i < n ∧ j = i) ∨ (i = r ∧ j = n)
  Open _ _ := False
  old_lt := by omega
  open_old := nofun
  open_alone := nofun

theorem Pairing.Linked.interposed {r n c i j : Nat} (hr : r < n)
    (h : (Pairing.interposed hr).Linked c i j) : Interposed r n i j := by
  rcases h with (hold | hframe) | ⟨k, -, rfl, rfl⟩
  · exact .inl hold
  · exact .inr (.inl hframe)
  · exact .inr (.inr ⟨Nat.le_add_right n k, Nat.add_right_comm n 1 k⟩)

/-- Every name looks alike from frames that belong together at the start: the new frame
binds nothing. -/
theorem Store.Closed.paired_interposed {s : Store ι} (h : s.Closed) {r : Nat} (hr : r < s.next) :
    s.Paired (.interposed hr) Set.univ 0 Set.univ (s.push (some r)) where
  next_left := rfl
  next_right := s.next_push (some r)
  old {i j x} hold _ := by
    have hself : ∀ id x, Option.Rel (Value.Alike ((Pairing.interposed hr).Captured Set.univ 0))
        (s.lookup id x) (s.lookup id x) := by
      intro id x
      cases hv : s.lookup id x with
      | none => exact .none
      | some v =>
        exact .some (Value.alike_self fun id hid _ =>
          ⟨.inl (.inl ⟨h.within_of_lookup hv id hid, rfl⟩), fun _ _ => trivial⟩)
    rcases hold with ⟨hlt, rfl⟩ | ⟨rfl, rfl⟩
    · rw [s.lookup_push_of_lt _ hlt]
      exact hself _ x
    · rw [lookup_of_frame (s.frames_push_next hr)]
      change Option.Rel _ _ ((s.push (some i)).lookup i x)
      rw [s.lookup_push_of_lt _ hr]
      exact hself i x
  made := by
    rintro i j ⟨k, hk, -⟩
    exact absurd hk (Nat.not_lt_zero k)

/-- The call of a parameterless literal evaluates its body in a new frame. -/
theorem evaluate_immediate_application (m : Machine ι) (label : ι) (b : Block ι) (r : FrameId) :
    m.evaluate none (.expression (.call (.fn ⟨label, [], b⟩) [])) r =
      ((Block.eval (call none) m.store.next b).exec
        ⟨m.store.push (some r), m.printer, m.depth + 1⟩).map fun (o, m') =>
          ((Outcome.result o).mapError .error, m'.leave) := by
  have hcall : m.evaluate none (.expression (.call (.fn ⟨label, [], b⟩) [])) r =
      (call none (.closure ⟨label, [], b⟩ r) []).exec m := rfl
  have hadmits : Admits none m.depth := fun _ => nofun
  rw [hcall, exec_call_parameterless hadmits]

/-- **Immediate application is transparent.** On a reachable machine, for every frame
there is and every block without `let` statements outside function literals, the block
and the call of the parameterless literal with that body finish both or neither. If they
do, they end with the same error, or with values of the same type and text that differ
in the numbers of frames and the interposed one alone; they print the same text; they
leave every frame there was as it was; and the frames that they make are alike, one by
one, but for the empty one that the call interposes. -/
theorem immediate_application_is_transparent {m : Machine ι} (hm : m.Reachable) {r : FrameId}
    (hr : r < m.store.next) {b : Block ι} (hb : Stmt.letsList b = []) (label : ι) :
    let application : Expr ι := .call (.fn ⟨label, [], b⟩) []
    let Same := Interposed r m.store.next
    (m.evaluate none (.block b) r = none ↔ m.evaluate none (.expression application) r = none) ∧
    ∀ o m₁, m.evaluate none (.block b) r = some (o, m₁) → ∃ (o' : Outcome ι) (m₂ : Machine ι)
      (text : String),
      m.evaluate none (.expression application) r = some (o', m₂) ∧
      ((∃ err, o.result = .error err ∧ o' = .error (.error err)) ∨
        ∃ v v', o.result = .ok v ∧ o' = .ok v' ∧ v.Alike (fun _ => Same) v' ∧
          v'.type = v.type ∧ v'.render = v.render) ∧
      m₁.printer = m.printer.append text ∧ m₂.printer = m.printer.append text ∧
      (∀ id < m.store.next, m₁.store.frames[id]? = m.store.frames[id]? ∧
        m₂.store.frames[id]? = m.store.frames[id]?) ∧
      m₂.store.frames[m.store.next]? = some (Frame.empty (some r)) ∧
      ∀ k, Option.Rel (Frame.Paired (fun _ => Same) Same) m₁.store.frames[m.store.next + k]?
        m₂.store.frames[m.store.next + 1 + k]? := by
  intro application Same
  let P : Pairing := .interposed hr
  let M := Mirror.paired ι none P Set.univ m.printer m.printer
  let start : Machine ι := ⟨m.store.push (some r), m.printer, m.depth + 1⟩
  have hstart : M.Machines (0, Set.univ) m start :=
    ⟨subset_rfl, hm.closed.paired_interposed hr, ⟨"", by simp, by simp [start]⟩, nofun⟩
  have hframes : ∀ access ∈ Stmt.accessesList b, M.Frames (0, Set.univ) r m.store.next access := by
    refine fun access haccess => ⟨.inl (.inr ⟨rfl, rfl⟩), fun _ _ => trivial, ?_⟩
    rintro x rfl
    exact nomatch hb ▸ Stmt.mem_letsList_of_write haccess
  have hmatched := Block.eval_matched b hstart hframes
  rw [evaluate_immediate_application, Option.map_eq_none_iff]
  refine ⟨hmatched.none_iff, fun o m₁ hrun => ?_⟩
  obtain ⟨w, o', m₂, -, hrun', hends, hoo'⟩ := hmatched.of_some hrun
  obtain ⟨text, hprinted, hprinted'⟩ := hends.printed
  -- neither run writes a frame it has not made
  have hext : m.store.Extends m₁.store := (Phrase.block b).eval_extends none r hb m o m₁ hrun
  have hext' : start.store.Extends m₂.store :=
    (Phrase.block b).eval_extends none m.store.next hb start o' m₂ hrun'
  have hnext : m.store.next < start.store.next := by
    rw [Store.next_push]
    exact Nat.lt_succ_self _
  refine ⟨(Outcome.result o').mapError .error, m₂.leave, text, ?_, ?_, hprinted, hprinted',
    ?_, ?_, ?_⟩
  · rw [hrun']
    rfl
  · rcases (Outcome.Alike.result hoo').error_or_ok with ⟨err, ho, ho'⟩ | ⟨v, v', ho, ho', hv⟩
    · exact .inl ⟨err, ho, congrArg _ ho'⟩
    · exact .inr ⟨v, v', ho, congrArg _ ho', hv.mono fun _ _ _ h => h.1.interposed hr, hv.type_eq,
        hv.render_eq⟩
  · intro id hid
    refine ⟨hext.frames_eq id hid, ?_⟩
    rw [← m.store.frames_push_of_lt (some r) hid]
    exact hext'.frames_eq id (Nat.lt_trans hid hnext)
  · rw [← m.store.frames_push_next hr]
    exact hext'.frames_eq _ hnext
  · exact fun k => optionRel_mono (fun _ _ => .mono (fun _ _ _ h => h.1.interposed hr)
      fun _ _ h => h.interposed hr) (hends.store.frames k)

attribute [local semireducible] Pending.write Store.lookup

/-- A block that prints, and returns a closure before its end: in the call, the closure
has captured the empty frame instead of the one in hand. -/
theorem immediate_application_is_transparent_escaping_closure :
    let g : FnLiteral Unit := ⟨(), [], [.expr (.ident "x")]⟩
    let b : Block Unit :=
      [.expr (.call (.ident "log") [.ident "x"]), .ret (.fn g), .expr (.ident "y")]
    let m : Machine Unit := (Machine.fresh (.buffer "")).bind Machine.root "x" (.int 7)
    ∃ m₁ m₂ : Machine Unit,
      m.evaluate none (.block b) Machine.root =
        some (.error (.returned (.closure g Machine.root)), m₁) ∧
      m.evaluate none (.expression (.call (.fn ⟨(), [], b⟩) [])) Machine.root =
        some (.ok (.closure g 1), m₂) ∧
      m₁.printer = .buffer "7\n" ∧ m₂.printer = m₁.printer ∧
      m₂.store.frames[Machine.root]? = m.store.frames[Machine.root]? ∧
      m₂.store.frames[1]? = some (Frame.empty (some Machine.root)) := by
  intro g b m
  have hblock : (m.evaluate none (.block b) Machine.root).map (fun r => (r.1, r.2.printer)) =
      some (.error (.returned (.closure g Machine.root)), .buffer "7\n") :=
    Machine.map_evaluate_of_nested 1 rfl
  have hcall : (m.evaluate none (.expression (.call (.fn ⟨(), [], b⟩) [])) Machine.root).map
      (·.1) = some (.ok (.closure g 1)) :=
    Machine.map_evaluate_of_nested 2 rfl
  obtain ⟨⟨o, m₁⟩, hrun, heq⟩ := Option.map_eq_some_iff.1 hblock
  obtain ⟨rfl, hprinter⟩ := Prod.mk.inj heq
  have hm : m.Reachable := by
    refine .rest (.bind (.frame none (.built _)) ?_)
    rintro _ ⟨⟩
  have hroot : Machine.root < m.store.next := Nat.zero_lt_one
  obtain ⟨o', m₂, text, hrun', -, htext, htext', hframes, hempty, -⟩ :=
    (immediate_application_is_transparent hm hroot rfl ()).2 _ _ hrun
  rw [hrun'] at hcall
  cases hcall
  exact ⟨m₁, m₂, hrun, hrun', hprinter, htext'.trans htext.symm, (hframes _ hroot).2, hempty⟩

end Monkey
