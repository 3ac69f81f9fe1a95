import Monkey.Proofs.Course
import Monkey.Proofs.Renumbering

/-!
# Monkey — the machines that runs come to

A host builds an interpreter, makes frames, binds names, and has phrases evaluated and
values applied, one after the other and however they end. Between these it is at rest;
a machine is reachable if it is at rest, or if it comes about in the course of what is
evaluated or applied there. On a reachable machine no closure leads to a frame that is
not there (`Machine.Reachable.closed`): evaluation makes closures of the frame in hand
alone and keeps the store closed (`Moment.Ends.closed`), and so does all that it opens.
-/

namespace Monkey

variable {ι : Type}

/-! ## Closed stores -/

/-- The closures of a value lead to frames below a number. -/
def Value.Within (n : Nat) (v : Value ι) : Prop := ∀ id ∈ v.captured, id < n

/-- No binding leads to a frame that is not there. -/
def Store.Closed (s : Store ι) : Prop :=
  ∀ (id : FrameId) (f : Frame ι), s.frames[id]? = some f → ∀ b ∈ f.bindings, b.2.Within s.next

/-- Nor does a value that is seen from a frame of a closed store. -/
theorem Store.Closed.within_of_lookup {s : Store ι} (h : s.Closed) {id : FrameId} {x : String}
    {v : Value ι} (hv : s.lookup id x = some v) : v.Within s.next := by
  induction Store.sees_iff.2 hv with
  | here hf hget =>
    obtain ⟨before, after, heq, -⟩ := List.lookup_eq_some_iff.1 hget
    exact h _ _ hf (x, v) (heq ▸ List.mem_append_right _ List.mem_cons_self)
  | outward _ _ _ hsees ih => exact ih (Store.sees_iff.1 hsees)

theorem Value.Within.mono {n n' : Nat} {v : Value ι} (hle : n ≤ n') (h : v.Within n) :
    v.Within n' :=
  fun id hid => Nat.lt_of_lt_of_le (h id hid) hle

theorem Value.Alike.within {base k n : Nat} {v w : Value ι}
    (h : v.Alike (ShiftedBelow base k n) w) : v.Within n :=
  h.forall_captured fun _ _ _ hab => hab.1

/-- What leads to frames below the base is not shifted. -/
theorem Value.Within.alike_self {base k : Nat} {v : Value ι} (h : v.Within base) :
    v.Alike (ShiftedBelow base k base) v :=
  Value.alike_self fun id hid _ => ⟨h id hid, (shift_of_lt (h id hid)).symm⟩

/-- A store that can be shifted is closed. -/
theorem Store.Shifted.closed {base k : Nat} {s t : Store ι} (h : s.Shifted base k t) :
    s.Closed := by
  intro id f hf
  have hframe := h.frames id
  rw [hf] at hframe
  generalize t.frames[shift base k id]? = g at hframe
  cases hframe with
  | some hfg =>
    have hwithin := hfg.bindings.imp fun _ _ hb => And.intro hb.2.within hb
    exact ((List.forall₂_and_left _ _).1 hwithin).1

/-- The frame around a frame of a closed store is not shifted, nor what is bound in it. -/
theorem Store.Closed.frame_alike {s : Store ι} (h : s.Closed) {k : Nat} {id : FrameId}
    {f : Frame ι} (hf : s.frames[id]? = some f) :
    f.Alike (ShiftedBelow s.next k s.next) (shift s.next k) f where
  parent_eq := by
    cases hp : f.parent with
    | none => rfl
    | some p =>
      have hlt : p < s.next := Nat.lt_trans (parent_lt_of_frame hf hp) (lt_next_of_frames hf)
      rw [Option.map_some, shift_of_lt hlt]
  bindings := List.forall₂_same.2 fun b hb => ⟨rfl, (h id f hf b hb).alike_self⟩

/-- A closed store has its frames, shifted, in every store that extends it. -/
theorem Store.Closed.shifted {s t : Store ι} (h : s.Closed) (hext : s.Extends t) {k : Nat}
    (hnext : t.next = s.next + k) : s.Shifted s.next k t where
  base_le := Nat.le_refl _
  next_eq := hnext
  frames id := by
    by_cases hid : id < s.next
    · rw [shift_of_lt hid, hext.frames_eq id hid, Array.getElem?_eq_getElem hid]
      exact .some (h.frame_alike (Array.getElem?_eq_getElem hid))
    · have hid := Nat.le_of_not_lt hid
      have hid' : t.next ≤ id + k := hnext ▸ Nat.add_le_add_right hid k
      rw [shift_of_le hid, Array.getElem?_eq_none hid, Array.getElem?_eq_none hid']
      exact .none

/-- So a closed machine has its own frames, and a run on it mirrors itself. -/
theorem Store.Closed.shifted_self {m : Machine ι} (h : m.store.Closed) :
    m.Shifted m.store.next 0 m.store.next m :=
  ⟨rfl, h.shifted (.refl _) rfl, rfl, rfl⟩

/-! ## Closed moments -/

/-- What a task asks for, once given, leads to frames below a number. -/
def Kind.Within (n : Nat) : (k : Kind) → k.Answer ι → Prop
  | .value, v => v.Within n
  | .values, vs => ∀ v ∈ vs, v.Within n

/-- The frame or the values of a task are below a number. -/
def Task.Within (n : Nat) {k : Kind} : Task ι k → Prop
  | .expression env _ | .expressions env _ | .statement env _ | .block env _ | .program env _ =>
    env < n
  | .apply callee args => callee.Within n ∧ ∀ v ∈ args, v.Within n

theorem Task.Within.mono {n n' : Nat} (hle : n ≤ n') {k : Kind} {t : Task ι k}
    (h : t.Within n) : t.Within n' := by
  cases t with
  | apply callee args => exact ⟨h.1.mono hle, fun v hv => (h.2 v hv).mono hle⟩
  | _ => exact Nat.lt_of_lt_of_le h hle

/-- Nothing leads to a frame that is not there when a moment begins. -/
structure Moment.Closed (x : Moment ι) : Prop where
  store : x.machine.store.Closed
  task : x.task.Within x.machine.store.next

/-- Two answers of a kind are alike in a world. -/
def Mirror.Answers {W : Type} [Preorder W] {limit : Option Nat} (M : Mirror ι W limit) :
    (k : Kind) → W → k.Answer ι → k.Answer ι → Prop
  | .value => M.Values
  | .values => M.ValueLists

theorem Kind.within_of_answers {limit : Option Nat} {base k n : Nat} :
    ∀ {kind : Kind} {a : kind.Answer ι}, (Mirror.shifted ι limit base k).Answers kind n a a →
      kind.Within n a
  | .value, _, h => h.within
  | .values, _, h => fun v hv => (List.forall₂_same.1 h v hv).within

namespace Moment

variable {limit : Option Nat} {x y : Moment ι}

/-- The evaluation of a closed moment mirrors itself. -/
theorem Closed.mirrors (hx : x.Closed) (limit : Option Nat) :
    let M := Mirror.shifted ι limit x.machine.store.next 0
    M.Mirrors x.machine.store.next (M.Answers x.kind) (x.task.eval limit) (x.task.eval limit) := by
  intro M
  have hcalls := call_mirrors M
  obtain ⟨t, m⟩ := x
  have hframe : ∀ {env : FrameId}, env < m.store.next → ∀ access : Access ι,
      M.Frames m.store.next env env access := fun h _ => ⟨h, (shift_of_lt h).symm⟩
  cases t with
  | expression env e => exact Expr.eval_mirrors hcalls e fun _ _ => hframe hx.task _
  | expressions env es => exact Expr.evalList_mirrors hcalls es fun _ _ => hframe hx.task _
  | statement env s => exact Stmt.eval_mirrors hcalls s fun _ _ => hframe hx.task _
  | block env b => exact Block.eval_mirrors hcalls b fun _ _ => hframe hx.task _
  | program env ss => exact Program.eval_mirrors hcalls ⟨ss⟩ fun _ _ => hframe hx.task _
  | apply callee args =>
    obtain ⟨hcallee, hargs⟩ := hx.task
    exact hcalls _ _ _ _ _ hcallee.alike_self
      (List.forall₂_same.2 fun v hv => (hargs v hv).alike_self)

/-- A closed moment ends on a closed machine, on which the value it gives leads to
frames that are there. -/
theorem Ends.closed {r : Except (Interrupt ι) (x.kind.Answer ι)} {m : Machine ι}
    (h : x.Ends limit r m) (hx : x.Closed) :
    m.store.Closed ∧ x.machine.store.next ≤ m.store.next ∧
      ∀ a, r = .ok a → x.kind.Within m.store.next a := by
  obtain ⟨n, q, m', hle, hexec, hmm', hrq⟩ :=
    hx.mirrors limit _ (Nat.le_refl _) _ _ hx.store.shifted_self r m h
  cases h.symm.trans hexec
  obtain rfl := hmm'.next_eq
  refine ⟨hmm'.store.closed, hle, ?_⟩
  rintro a rfl
  cases hrq with
  | ok ha => exact Kind.within_of_answers ha

/-- What comes after a part of a closed moment, in the same frame, is closed. -/
theorem Ends.closed_after {r : Except (Interrupt ι) (x.kind.Answer ι)} {m : Machine ι}
    (h : x.Ends limit r m) (hx : x.Closed) {k : Kind} {t : Task ι k}
    (ht : t.Within x.machine.store.next) : Closed ⟨t, m⟩ := by
  obtain ⟨hclosed, hle, -⟩ := h.closed hx
  exact ⟨hclosed, ht.mono hle⟩

/-- The body of a function begins on a closed machine. -/
theorem Closed.enter {f : FnLiteral ι} {env : FrameId} {args : List (Value ι)} {m : Machine ι}
    (hx : Closed ⟨.apply (.closure f env) args, m⟩) :
    Closed ⟨.block m.store.next f.body, m.enter f env args⟩ := by
  obtain ⟨hclosed, hcallee, hargs⟩ := hx
  have hshifted := hclosed.shifted_self.store.enter f env
    (List.forall₂_same.2 fun v hv => (hargs v hv).alike_self)
  have henv : env < m.store.next := hcallee env List.mem_cons_self
  rw [shift_of_lt henv] at hshifted
  refine ⟨hshifted.closed, ?_⟩
  change m.store.next < (m.store.enter f env args).next
  rw [Store.next_enter]
  exact Nat.lt_succ_self _

/-- A closed moment opens closed moments. -/
theorem Opens.closed {i : Step} (h : x.Opens limit i y) (hx : x.Closed) : y.Closed := by
  have hm := hx.store
  have ht := hx.task
  cases h with
  | binaryRight h | condYes h | condNo h | arguments h | indexRight h | tail h | blockNext h
  | programNext h => exact h.closed_after ⟨hm, ht⟩ ht
  | application hf hes =>
    obtain ⟨hm₁, hle₁, hv⟩ := hf.closed ⟨hm, ht⟩
    obtain ⟨hm₂, hle₂, hvs⟩ := hes.closed ⟨hm₁, Nat.lt_of_lt_of_le ht hle₁⟩
    exact ⟨hm₂, (hv _ rfl).mono hle₂, hvs _ rfl⟩
  | body => exact hx.enter
  | _ => exact ⟨hm, ht⟩

theorem Course.closed {p : Place} (h : x.Course limit p y) (hx : x.Closed) : y.Closed := by
  induction h with
  | here => exact hx
  | inside hopens _ ih => exact ih (hopens.closed hx)

end Moment

/-! ## Reachable machines -/

/-- The machines between runs. -/
inductive Machine.AtRest : Machine ι → Prop
  /-- An interpreter is built, with a printer of its own. -/
  | built (printer : Printer) : AtRest ⟨.empty, printer, 0⟩
  /-- The host makes a frame. -/
  | frame {m : Machine ι} (parent : Option FrameId) : AtRest m → AtRest (m.addFrame parent).2
  /-- The host binds a name, to a value that leads to no frame but those there are. -/
  | bind {m : Machine ι} {env : FrameId} {x : String} {v : Value ι} :
      AtRest m → v.Within m.store.next → AtRest (m.bind env x v)
  /-- A phrase is evaluated or a value applied, and that ends, with whatever result. -/
  | ends {x : Moment ι} {limit : Option Nat} {r : Except (Interrupt ι) (x.kind.Answer ι)}
      {m : Machine ι} :
      AtRest x.machine → x.task.Within x.machine.store.next → x.Ends limit r m → AtRest m
  /-- Another interpreter is built on the same frames. -/
  | rebuilt {m : Machine ι} (printer : Printer) : AtRest m → AtRest ⟨m.store, printer, 0⟩

/-- The machines at rest, and those in the course of what is evaluated or applied
there. -/
inductive Machine.Reachable : Machine ι → Prop
  | rest {m : Machine ι} : m.AtRest → Reachable m
  | course {x y : Moment ι} {limit : Option Nat} {place : Place} :
      x.machine.AtRest → x.task.Within x.machine.store.next → x.Course limit place y →
      Reachable y.machine

theorem Store.Closed.push {s : Store ι} (h : s.Closed) (parent : Option FrameId) :
    (s.push parent).Closed := by
  intro id f hf b hb
  rw [next_push]
  rw [frames_push] at hf
  split at hf
  · cases hf
    cases hb
  · exact (h id f hf b hb).mono (Nat.le_succ _)

/-- A value is bound that leads to no frame but those there are. -/
theorem Store.Closed.bind {s : Store ι} (h : s.Closed) (env : FrameId) (x : String) {v : Value ι}
    (hv : v.Within s.next) : (s.bind env x v).Closed :=
  (shifted_self (m := ⟨s, .silent, 0⟩) h |>.store.bind env x hv.alike_self).closed

/-- A machine at rest is closed. -/
theorem Machine.AtRest.closed {m : Machine ι} (h : m.AtRest) : m.store.Closed := by
  induction h with
  | built => exact fun _ _ hf => nomatch hf
  | frame parent _ ih => exact ih.push parent
  | bind _ hv ih => exact ih.bind _ _ hv
  | ends _ ht h ih => exact (h.closed ⟨ih, ht⟩).1
  | rebuilt _ _ ih => exact ih

/-- No call is in progress on a machine at rest. -/
theorem Machine.AtRest.depth_eq_zero {m : Machine ι} (h : m.AtRest) : m.depth = 0 := by
  induction h with
  | built => rfl
  | frame _ _ ih => exact ih
  | bind _ _ ih => exact ih
  | ends _ _ h ih => exact h.depth_eq.trans ih
  | rebuilt _ _ => rfl

/-- A reachable machine is closed. -/
theorem Machine.Reachable.closed {m : Machine ι} (h : m.Reachable) : m.store.Closed := by
  cases h with
  | rest hrest => exact hrest.closed
  | course hrest ht hcourse => exact (hcourse.closed ⟨hrest.closed, ht⟩).store

end Monkey
