import Mathlib.Data.List.Forall2
import Mathlib.Data.Set.Function
import Mathlib.Order.Interval.Set.Defs
import Monkey.Eval.Approximation
import Monkey.Proofs.PendingReturn
import Monkey.Proofs.Reachable
import Monkey.Proofs.Termination
import Monkey.Proofs.Unread

/-!
# Monkey — calls can be repeated

A call leaves new frames and printed text behind, and nothing else. The new frames are
reached from nowhere but its result, and printed text is never read, so the same call
made again goes as the first one did, with frames numbered higher
(`calls_repeat`).
-/

namespace Monkey

variable {ι : Type} {limit : Option Nat}

/-- The frames from a base on are shifted onto as many frames. -/
theorem shift_bijOn (base n : Nat) :
    Set.BijOn (shift base (n - base)) (Set.Ico base n) (Set.Ico n (n + (n - base))) := by
  refine ⟨fun id hid => ?_, shift_injective.injOn, fun id hid => ?_⟩
  · rw [shift_of_le hid.1, Set.mem_Ico]
    have := hid.1
    have := hid.2
    omega
  · have := hid.1
    have := hid.2
    refine ⟨id - (n - base), ⟨by omega, by omega⟩, ?_⟩
    rw [shift_of_le (by omega)]
    omega

/-- Calls end alike: with the same error, or with values that are alike. -/
theorem Outcome.Alike.of_call {C : FnLiteral ι → FrameId → FrameId → Prop} {callee : Value ι}
    {args : List (Value ι)} {m m' : Machine ι} {o o₂ : Outcome ι} (h : o.Alike C o₂)
    (hcall : (call limit callee args).exec m = some (o, m')) :
    (∃ err, o = .error (.error err) ∧ o₂ = .error (.error err)) ∨
      ∃ v v₂, o = .ok v ∧ o₂ = .ok v₂ ∧ v.Alike C v₂ := by
  cases h with
  | ok hv => exact .inr ⟨_, _, rfl, rfl, hv⟩
  | error hi =>
    cases hi with
    | error err => exact .inl ⟨err, rfl, rfl⟩
    | returned _ =>
      have hends : Moment.Ends limit ⟨.apply callee args, m⟩ (.error (.returned _)) m' := hcall
      exact absurd rfl hends.returns_ne_nil

/-- After a call the machine differs from the one before in new frames alone, once the
printed text is put back. -/
theorem shifted_of_call {callee : Value ι} {args : List (Value ι)} {m m₁ : Machine ι}
    {o : Outcome ι} (hm : m.store.Closed) (h : (call limit callee args).exec m = some (o, m₁)) :
    m.Shifted m.store.next (m₁.store.next - m.store.next) m.store.next
      { m₁ with printer := m.printer } where
  next_eq := rfl
  store := by
    have hext := call_extends limit callee args m o m₁ h
    exact hm.shifted hext (Nat.add_sub_of_le hext.next_le).symm
  printer_eq := rfl
  depth_eq := call_keeps_depth limit callee args m o m₁ h

/-- **Calls can be repeated.** On a reachable machine, where a call finishes, the same
call made again finishes too, with the same error or with the same value up to a
renaming of the frames made by the two calls, and prints the same text a second time.
The renaming leaves the frames there were before alone and takes the frames of the
first call, with their bindings, one to one to those of the second. -/
theorem calls_repeat (limit : Option Nat) {m m₁ : Machine ι} {callee : Value ι}
    {args : List (Value ι)} {o : Outcome ι} (hm : m.Reachable)
    (hcallee : callee.Within m.store.next) (hargs : ∀ v ∈ args, v.Within m.store.next)
    (h : (call limit callee args).exec m = some (o, m₁)) :
    ∃ (o₂ : Outcome ι) (m₂ : Machine ι) (σ : FrameId → FrameId) (text : String),
      (call limit callee args).exec m₁ = some (o₂, m₂) ∧
      ((∃ err, o = .error (.error err) ∧ o₂ = .error (.error err)) ∨
        ∃ v v₂, o = .ok v ∧ o₂ = .ok v₂ ∧ v.Alike (fun _ a b => b = σ a) v₂ ∧
          v₂.type = v.type ∧ v₂.render = v.render) ∧
      m₁.printer = m.printer.append text ∧ m₂.printer = m₁.printer.append text ∧
      (∀ id < m.store.next, σ id = id) ∧
      Set.BijOn σ (Set.Ico m.store.next m₁.store.next) (Set.Ico m₁.store.next m₂.store.next) ∧
      ∀ id, Option.Rel (Frame.Alike (fun _ a b => b = σ a) σ) m₁.store.frames[id]?
        m₂.store.frames[σ id]? := by
  have hshifted := shifted_of_call hm.closed h
  have hbij := shift_bijOn m.store.next m₁.store.next
  generalize m₁.store.next - m.store.next = k at hshifted hbij
  -- the second call mirrors the first one, on the printer as the first one found it
  obtain ⟨n, o₂, m', -, hexec, hends, hoo₂⟩ :=
    call_mirrors (Mirror.shifted ι limit m.store.next k) _ _ _ _ _ hcallee.alike_self
      (List.forall₂_same.2 fun v hv => (hargs v hv).alike_self) _ (Nat.le_refl _) _ _ hshifted _ _ h
  obtain ⟨text, htext, hprinter⟩ := (call_unread limit callee args).exists_append hexec
  obtain ⟨hnext, hstore, hprinted, -⟩ := hends
  have hσ : ∀ (f : FnLiteral ι) a b, ShiftedBelow m.store.next k m₁.store.next f a b →
      b = shift m.store.next k a := fun _ _ _ hab => hab.2
  refine ⟨o₂, { m' with printer := m₁.printer.append text }, shift m.store.next k, text,
    hprinter m₁.printer, ?_, hprinted.symm.trans htext, rfl, fun _ => shift_of_lt, ?_,
    fun id => ?_⟩
  · rcases Outcome.Alike.of_call hoo₂ h with herr | ⟨v, v₂, ho, ho₂, hv⟩
    · exact .inl herr
    · exact .inr ⟨v, v₂, ho, ho₂, hv.mono fun _ _ _ hab => hab.2, hv.type_eq, hv.render_eq⟩
  · change Set.BijOn _ _ (Set.Ico _ m'.store.next)
    rw [hstore.next_eq]
    exact hbij
  · have hframe := hstore.frames id
    change Option.Rel _ _ m'.store.frames[_]?
    generalize m₁.store.frames[id]? = f, m'.store.frames[shift m.store.next k id]? = g at hframe ⊢
    cases hframe with
    | none => exact .none
    | some hfg => exact .some (hfg.mono hσ)

attribute [local semireducible] Pending.write Store.lookup

/-- A function that prints its argument, captures its frame in a closure and returns
that: the second call prints the line again and returns the closure with a frame of its
own. -/
theorem calls_repeat_with_a_closure :
    let g : FnLiteral Unit := ⟨(), [], [.expr (.ident "x")]⟩
    let f : FnLiteral Unit := ⟨(), ["x"], [.expr (.call (.ident "log") [.ident "x"]),
      .bind "g" (.fn g), .ret (.array [.ident "g", .ident "x"])]⟩
    let m : Machine Unit := Machine.fresh (.buffer "")
    let args : List (Value Unit) := [.int 7]
    ∃ (m₁ m₂ : Machine Unit) (frame : FrameId),
      (call (some 1) (.closure f Machine.root) args).exec m =
        some (.ok (.array [.closure g 1, .int 7]), m₁) ∧ m₁.printer = .buffer "7\n" ∧
      (call (some 1) (.closure f Machine.root) args).exec m₁ =
        some (.ok (.array [.closure g frame, .int 7]), m₂) ∧
      m₂.printer = .buffer "7\n7\n" ∧ 2 ≤ frame := by
  intro g f m args
  have hrun : ((Block.eval (call (some 1)) 1 f.body).exec (m.enter f Machine.root args)).map
      (fun r => (r.1, r.2.printer, r.2.store.next)) =
      some (.error (.returned (.array [.closure g 1, .int 7])), .buffer "7\n", 2) :=
    EvalM.le.map_exec (Block.eval_le (callNested_le _ 1) _ _) rfl
  obtain ⟨⟨o, m₁⟩, hbody, heq⟩ := Option.map_eq_some_iff.1 hrun
  obtain ⟨rfl, heq⟩ := Prod.mk.inj heq
  obtain ⟨hprinter, hnext⟩ := Prod.mk.inj heq
  have hadmits : Admits (some 1) m.depth := by
    rintro _ ⟨⟩
    exact Nat.zero_lt_one
  have h : (call (some 1) (.closure f Machine.root) args).exec m =
      some (.ok (.array [.closure g 1, .int 7]), m₁.leave) :=
    exec_call_iff.2 (.closure rfl hadmits hbody)
  have hm : m.Reachable := .rest (.frame none (.built _))
  have hcallee : (Value.closure f Machine.root).Within m.store.next :=
    List.forall_mem_singleton.2 Nat.zero_lt_one
  have hargs : ∀ v ∈ args, v.Within m.store.next := by
    refine List.forall_mem_singleton.2 fun _ hcaptured => ?_
    cases hcaptured
  obtain ⟨o₂, m₂, σ, text, h₂, hout, htext, htext₂, -, hbij, -⟩ :=
    calls_repeat (some 1) hm hcallee hargs h
  obtain ⟨err, ho, -⟩ | ⟨v, v₂, ho, rfl, hv, -, -⟩ := hout
  · cases ho
  cases ho
  have hv₂ : v₂ = .array [.closure g (σ 1), .int 7] := by
    cases hv with
    | array hvs =>
      obtain ⟨_, _, hclosure, hrest, rfl⟩ := List.forall₂_cons_left_iff.1 hvs
      obtain ⟨_, _, hint, hnil, rfl⟩ := List.forall₂_cons_left_iff.1 hrest
      cases hclosure with
      | closure hframe =>
        cases hint
        cases hnil
        rw [hframe]
  have hmem : 1 ∈ Set.Ico m.store.next m₁.leave.store.next :=
    ⟨Nat.le_refl 1, Nat.lt_of_lt_of_eq Nat.one_lt_two hnext.symm⟩
  have hprinted : m₁.leave.printer = .buffer "7\n" := hprinter
  have htext' : "7\n" = "" ++ text := Printer.buffer.inj (hprinted.symm.trans htext)
  rw [String.empty_append] at htext'
  rw [hprinted, ← htext'] at htext₂
  rw [hv₂] at h₂
  exact ⟨m₁.leave, m₂, σ 1, h, hprinted, h₂, htext₂, hnext ▸ (hbij.mapsTo hmem).1⟩

end Monkey
