import Mathlib.Order.Basic
import Monkey.Proofs.Chains
import Monkey.Proofs.SideBySide
import Monkey.Syntax.Nesting

/-!
# Monkey — scope chains follow the text

A closure is made in the frame in hand and its body runs in a new frame inside that one,
whoever calls it. So code that stands inside `k` function literals of the text runs in a
frame from which a chain of `k + 1` frames leads to the root, and a closure whose literal
stands inside `k` others has captured such a frame (`chains_follow_the_text`). What the
evaluation meets is of this kind in every world, a world being the lengths of the chains
of the frames made so far: an evaluation mirrors itself (`Mirror.scoped`).
-/

namespace Monkey

variable {ι : Type}

/-! ## The closures of a value -/

/-- A function literal and the frame that it has captured. -/
structure Closure (ι : Type) where
  literal : FnLiteral ι
  env : FrameId

mutual

/-- The closures in a value. -/
def Value.closures : Value ι → List (Closure ι)
  | .closure f env => [⟨f, env⟩]
  | .array vs => Value.closuresList vs
  | _ => []
termination_by structural v => v

/-- Those in a list of values. -/
def Value.closuresList : List (Value ι) → List (Closure ι)
  | [] => []
  | v :: vs => v.closures ++ Value.closuresList vs
termination_by structural vs => vs

end

section Diagonal

variable {P : FnLiteral ι → FrameId → Prop}

mutual

/-- Where frames are related to themselves alone, so are values, if their closures are. -/
theorem Value.alike_diagonal_iff : ∀ {v w : Value ι},
    v.Alike (fun f a b => b = a ∧ P f a) w ↔ w = v ∧ ∀ c ∈ v.closures, P c.literal c.env
  | .closure f a, w => by
    constructor
    · rintro ⟨⟩
      rename_i h
      obtain ⟨rfl, h⟩ := h
      exact ⟨rfl, List.forall_mem_singleton.2 h⟩
    · rintro ⟨rfl, h⟩
      exact .closure ⟨rfl, h _ List.mem_cons_self⟩
  | .array vs, w => by
    constructor
    · rintro ⟨⟩
      rename_i h
      obtain ⟨rfl, h⟩ := Value.alike_diagonal_iff_list.1 h
      exact ⟨rfl, h⟩
    · rintro ⟨rfl, h⟩
      exact .array (Value.alike_diagonal_iff_list.2 ⟨rfl, h⟩)
  | .int _, _ | .bool _, _ | .str _, _ | .builtin _, _ | .null, _ => by
    constructor
    · rintro ⟨⟩
      exact ⟨rfl, nofun⟩
    · rintro ⟨rfl, -⟩
      constructor
termination_by structural v => v

theorem Value.alike_diagonal_iff_list : ∀ {vs ws : List (Value ι)},
    List.Forall₂ (Value.Alike fun f a b => b = a ∧ P f a) vs ws ↔
      ws = vs ∧ ∀ c ∈ Value.closuresList vs, P c.literal c.env
  | [], ws => by
    constructor
    · rintro ⟨⟩
      exact ⟨rfl, nofun⟩
    · rintro ⟨rfl, -⟩
      exact .nil
  | v :: vs, ws => by
    constructor
    · rintro ⟨⟩
      rename_i hv hvs
      obtain ⟨rfl, hv⟩ := Value.alike_diagonal_iff.1 hv
      obtain ⟨rfl, hvs⟩ := Value.alike_diagonal_iff_list.1 hvs
      exact ⟨rfl, List.forall_mem_append.2 ⟨hv, hvs⟩⟩
    · rintro ⟨rfl, h⟩
      obtain ⟨hv, hvs⟩ := List.forall_mem_append.1 h
      exact .cons (Value.alike_diagonal_iff.2 ⟨rfl, hv⟩)
        (Value.alike_diagonal_iff_list.2 ⟨rfl, hvs⟩)
termination_by structural vs => vs

end

end Diagonal

/-! ## Closures in their place -/

/-- Which frames have `k` others around them. -/
abbrev Depths := Nat → FrameId → Prop

/-- The literal of a closure stands in the text, inside as many others as there are frames
around the captured one. -/
def Closure.Placed (p : Program ι) (w : Depths) (c : Closure ι) : Prop :=
  ∃ fs, p.Contains fs (.expression (.fn c.literal)) ∧ w fs.length c.env

section Placed

variable {p : Program ι} {w w' : Depths} {c : Closure ι}

theorem Closure.Placed.mono (hle : w ≤ w') (h : c.Placed p w) : c.Placed p w' := by
  obtain ⟨fs, hf, hchain⟩ := h
  exact ⟨fs, hf, hle _ _ hchain⟩

theorem Closure.placed_mono_all (hle : w ≤ w') {cs : List (Closure ι)}
    (h : ∀ c ∈ cs, c.Placed p w) : ∀ c ∈ cs, c.Placed p w' :=
  fun c hc => (h c hc).mono hle

/-- Where no two literals share a label, there are as many frames around the captured one
as the literal says. -/
theorem Closure.Placed.at {fs : List (FnLiteral ι)} (hp : p.labels.Nodup) (h : c.Placed p w)
    (hf : p.Contains fs (.expression (.fn c.literal))) : w fs.length c.env := by
  obtain ⟨gs, hg, hchain⟩ := h
  rw [hf.unique hp hg] at hchain
  exact hchain

end Placed

/-! ## Stores -/

/-- The frames from a root on have chains that lead to it, none longer than the text is
deep, and bind closures in their place. -/
structure Store.Scoped (p : Program ι) (root : FrameId) (s : Store ι) : Prop where
  chains : ∀ id, root ≤ id → id < s.next → ∃ k ≤ p.nesting, s.HasChain root k id
  bindings : ∀ id f, root ≤ id → s.frames[id]? = some f → ∀ b ∈ f.bindings,
    ∀ c ∈ b.2.closures, c.Placed p (s.HasChain root)

theorem Frame.mem_rebind {x : String} {v : Value ι} {b : String × Value ι}
    {bs : List (String × Value ι)} (h : b ∈ Frame.rebind x v bs) : b = (x, v) ∨ b ∈ bs := by
  induction bs with
  | nil => exact .inl (List.mem_singleton.1 h)
  | cons c bs ih => grind [Frame.rebind]

namespace Store.Scoped

variable {p : Program ι} {root id env : FrameId} {s : Store ι} {k : Nat}

/-- A value that is seen from a frame with a chain holds closures in their place. -/
theorem lookup (hs : s.Scoped p root) (h : s.HasChain root k id) {x : String} {v : Value ι}
    (hv : s.lookup id x = some v) : ∀ c ∈ v.closures, c.Placed p (s.HasChain root) := by
  induction Store.sees_iff.2 hv generalizing k with
  | here hf hget =>
    obtain ⟨before, after, heq, -⟩ := List.lookup_eq_some_iff.1 hget
    exact hs.bindings _ _ h.root_le hf (x, v) (heq ▸ List.mem_append_right _ List.mem_cons_self)
  | outward hf _ hp hsees ih =>
    obtain ⟨j, -, h⟩ := h.outward hf hp
    exact ih h (Store.sees_iff.1 hsees)

theorem bind (hs : s.Scoped p root) (env : FrameId) (x : String) {v : Value ι}
    (hv : ∀ c ∈ v.closures, c.Placed p (s.HasChain root)) : (s.bind env x v).Scoped p root where
  chains id hid hlt := by
    rw [hasChain_bind]
    exact hs.chains id hid (s.next_bind env x v ▸ hlt)
  bindings id f hid hf b hb := by
    rw [hasChain_bind]
    rw [frames_bind] at hf
    split at hf
    · obtain ⟨g, hg, rfl⟩ := Option.map_eq_some_iff.1 hf
      rcases Frame.mem_rebind hb with rfl | hb
      · exact hv
      · exact hs.bindings id g hid hg b hb
    · exact hs.bindings id f hid hf b hb

theorem bindAll (hs : s.Scoped p root) (env : FrameId) (xs : List String) {vs : List (Value ι)}
    (hvs : ∀ c ∈ Value.closuresList vs, c.Placed p (s.HasChain root)) :
    (s.bindAll env xs vs).Scoped p root := by
  induction xs generalizing s vs with
  | nil => exact hs
  | cons x xs ih =>
    cases vs with
    | nil => exact hs
    | cons v vs =>
      obtain ⟨hv, hvs⟩ := List.forall_mem_append.1 hvs
      exact ih (hs.bind env x hv) (by rwa [hasChain_bind])

/-- A new frame inside one with a chain has a chain itself. -/
theorem push (hs : s.Scoped p root) (h : s.HasChain root k env) (hk : k + 1 ≤ p.nesting) :
    (s.push (some env)).Scoped p root where
  chains id hid hlt := by
    rw [next_push] at hlt
    rcases Nat.lt_succ_iff_lt_or_eq.1 hlt with hlt | rfl
    · obtain ⟨j, hj, hchain⟩ := hs.chains id hid hlt
      exact ⟨j, hj, hchain.push _⟩
    · exact ⟨k + 1, hk, h.push_next⟩
  bindings id f hid hf b hb := by
    rw [frames_push] at hf
    split at hf
    · cases hf
      cases hb
    · exact Closure.placed_mono_all (fun _ _ h => h.push _) (hs.bindings id f hid hf b hb)

/-- The body of a closure in its place runs in a frame one deeper. -/
theorem enter (hs : s.Scoped p root) {f : FnLiteral ι} {fs : List (FnLiteral ι)}
    (hf : p.Contains fs (.expression (.fn f))) (henv : s.HasChain root fs.length env)
    {args : List (Value ι)}
    (hargs : ∀ c ∈ Value.closuresList args, c.Placed p (s.HasChain root)) :
    (s.enter f env args).Scoped p root ∧ s.HasChain root ≤ (s.enter f env args).HasChain root ∧
      (s.enter f env args).HasChain root (f :: fs).length s.next := by
  have hle : s.HasChain root ≤ (s.push (some env)).HasChain root := fun _ _ h => h.push _
  have hpush := hs.push henv hf.body.length_le
  rw [Store.enter, hasChain_bindAll]
  exact ⟨hpush.bindAll _ _ (Closure.placed_mono_all hle hargs), hle, henv.push_next⟩

end Store.Scoped

/-- A run begins in a root of its own. -/
theorem Store.scoped_push_none (p : Program ι) (s : Store ι) :
    (s.push none).HasChain s.next 0 s.next ∧ (s.push none).Scoped p s.next := by
  have hchain := HasChain.of_root s.frames_push_root rfl
  have heq : ∀ id, s.next ≤ id → id < (s.push none).next → id = s.next := by
    intro id hid hlt
    rw [next_push] at hlt
    exact Nat.le_antisymm (Nat.le_of_lt_succ hlt) hid
  refine ⟨hchain, fun id hid hlt => ?_, fun id f hid hf' b hb => ?_⟩
  · rw [heq id hid hlt]
    exact ⟨0, Nat.zero_le _, hchain⟩
  · rw [heq id hid (lt_next_of_frames hf'), s.frames_push_root] at hf'
    cases hf'
    cases hb

/-! ## Evaluations -/

/-- An evaluation goes like itself, and meets nothing but closures in their place. -/
def Mirror.scoped (limit : Option Nat) (p : Program ι) (root : FrameId) :
    Mirror ι Depths limit where
  Machines w m n := n = m ∧ m.store.HasChain root = w ∧ m.store.Scoped p root
  Closures w f a b := b = a ∧ Closure.Placed p w ⟨f, a⟩
  Frames w a b access := b = a ∧ ∃ fs, w (List.length fs) a ∧
    ∀ f, access = .capture f → p.Contains fs (.expression (.fn f))
  closures_mono hle h := ⟨h.1, h.2.mono hle⟩
  frames_mono := by
    rintro w w' _ a access hle ⟨rfl, fs, hchain, hcapture⟩
    exact ⟨rfl, fs, hle _ _ hchain, hcapture⟩
  read := by
    rintro w _ m _ a x ⟨rfl, rfl, hs⟩ ⟨rfl, fs, hchain, -⟩
    cases hv : m.store.lookup a x with
    | none => exact .none
    | some v => exact .some (Value.alike_diagonal_iff.2 ⟨rfl, hs.lookup hchain hv⟩)
  write := by
    rintro w _ m _ a x _ v ⟨rfl, rfl, hs⟩ ⟨rfl, -⟩ hv
    obtain ⟨rfl, hv⟩ := Value.alike_diagonal_iff.1 hv
    exact ⟨_, le_refl _, rfl, m.store.hasChain_bind a x v, hs.bind a x hv⟩
  capture := by
    rintro w _ a f ⟨rfl, fs, hchain, hcapture⟩
    exact ⟨rfl, fs, hcapture f rfl, hchain⟩
  print := by
    rintro w _ m text ⟨rfl, hw, hs⟩
    exact ⟨rfl, hw, hs⟩
  admits_iff := by
    rintro w _ m ⟨rfl, -⟩
    exact Iff.rfl
  enter := by
    rintro w _ m f _ a args args' ⟨rfl, rfl, hs⟩ ⟨rfl, fs, hf, hchain⟩ hargs
    obtain ⟨rfl, hargs⟩ := Value.alike_diagonal_iff_list.1 hargs
    obtain ⟨hs', hle, hnext⟩ := hs.enter hf hchain hargs
    refine ⟨_, hle, ⟨rfl, rfl, hs'⟩, fun access haccess => ⟨rfl, f :: fs, hnext, ?_⟩⟩
    rintro g rfl
    exact hf.body.of_capture haccess
  leave := by
    rintro w _ m ⟨rfl, hw, hs⟩
    exact ⟨rfl, hw, hs⟩

/-! ## Moments -/

/-- The code of a task and the frame it is evaluated in; an application has none. -/
def Task.code? : {k : Kind} → Task ι k → Option (FrameId × Node ι)
  | _, .expression env e => some (env, .expression e)
  | _, .expressions env es => some (env, .expressions es)
  | _, .statement env s => some (env, .statement s)
  | _, .block env ss | _, .program env ss => some (env, .block ss)
  | _, .apply _ _ => none

/-- The closures in the values of a task. -/
def Task.closures {k : Kind} : Task ι k → List (Closure ι)
  | .apply callee args => callee.closures ++ Value.closuresList args
  | _ => []

/-- The closures in what a task gives. -/
def Kind.closures : (k : Kind) → Except (Interrupt ι) (k.Answer ι) → List (Closure ι)
  | .value, .ok v => v.closures
  | .values, .ok vs => Value.closuresList vs
  | _, .error (.returned v) => v.closures
  | _, .error (.error _) => []

/-- Everything is in its place at a moment: the code stands in the text, directly inside
the given function literal if there is one, and inside as many others as there are frames
around the one in hand; and so do the literals of the closures. -/
structure Moment.Scoped (p : Program ι) (root : FrameId) (o : Option (FnLiteral ι))
    (x : Moment ι) : Prop where
  store : x.machine.store.Scoped p root
  code : ∀ env node, x.task.code? = some (env, node) →
    ∃ fs, fs.head? = o ∧ p.Contains fs node ∧ x.machine.store.HasChain root fs.length env
  closures : ∀ c ∈ x.task.closures, c.Placed p (x.machine.store.HasChain root)

namespace Moment

variable {limit : Option Nat} {p : Program ι} {root : FrameId} {o : Option (FnLiteral ι)}
variable {x y : Moment ι}

/-- A moment with everything in its place mirrors itself. -/
theorem Scoped.tasks (hx : x.Scoped p root o) (limit : Option Nat) :
    (Mirror.scoped limit p root).Tasks (x.machine.store.HasChain root) x.task x.task := by
  obtain ⟨t, m⟩ := x
  have hframes : ∀ env node, t.code? = some (env, node) → ∀ access ∈ node.accesses,
      (Mirror.scoped limit p root).Frames (m.store.HasChain root) env env access := by
    intro env node hcode access haccess
    obtain ⟨fs, -, hnode, hchain⟩ := hx.code env node hcode
    refine ⟨rfl, fs, hchain, ?_⟩
    rintro f rfl
    exact hnode.of_capture haccess
  cases t with
  | expression env e => exact .expression (hframes env _ rfl)
  | expressions env es => exact .expressions (hframes env _ rfl)
  | statement env s => exact .statement (hframes env _ rfl)
  | block env ss => exact .block (hframes env _ rfl)
  | program env ss => exact .program (hframes env _ rfl)
  | apply callee args =>
    obtain ⟨hcallee, hargs⟩ := List.forall_mem_append.1 hx.closures
    exact .apply (Value.alike_diagonal_iff.2 ⟨rfl, hcallee⟩)
      (Value.alike_diagonal_iff_list.2 ⟨rfl, hargs⟩)

theorem placed_of_alike {w : Depths} {k : Kind} {r q : Except (Interrupt ι) (k.Answer ι)}
    (h : ResultsAlike (Interrupt.Alike ((Mirror.scoped limit p root).Closures w))
      ((Mirror.scoped limit p root).Answers k w) r q) :
    ∀ c ∈ k.closures r, c.Placed p w := by
  cases h with
  | error hi =>
    cases hi with
    | error e => cases k <;> exact nofun
    | returned hv => cases k <;> exact (Value.alike_diagonal_iff.1 hv).2
  | ok ha =>
    cases k with
    | value => exact (Value.alike_diagonal_iff.1 ha).2
    | values => exact (Value.alike_diagonal_iff_list.1 ha).2

/-- Where everything was in its place at the start of a moment, everything is at its end. -/
theorem Ends.scoped {r : Except (Interrupt ι) (x.kind.Answer ι)} {m : Machine ι}
    (h : x.Ends limit r m) (hx : x.Scoped p root o) :
    x.machine.store.HasChain root ≤ m.store.HasChain root ∧ m.store.Scoped p root ∧
      ∀ c ∈ x.kind.closures r, c.Placed p (m.store.HasChain root) := by
  obtain ⟨w, q, m', hle, hexec, ⟨rfl, rfl, hs⟩, hrq⟩ :=
    (hx.tasks limit).mirrors _ (le_refl _) _ _ ⟨rfl, rfl, hx.store⟩ r m h
  exact ⟨hle, hs, placed_of_alike hrq⟩

/-- A part of the code in hand is in its place, on each machine of the evaluation. -/
theorem Scoped.part {k : Kind} {t : Task ι k} {m : Machine ι} {env : FrameId}
    {node part : Node ι} (hx : x.Scoped p root o) (hm : m.store.Scoped p root)
    (hle : x.machine.store.HasChain root ≤ m.store.HasChain root)
    (hcode : x.task.code? = some (env, node)) (hpart : part ∈ node.parts)
    (ht : t.code? = some (env, part)) (hclosures : t.closures = []) :
    Scoped p root o ⟨t, m⟩ where
  store := hm
  code env' part' h := by
    cases ht.symm.trans h
    obtain ⟨fs, ho, hnode, hchain⟩ := hx.code env node hcode
    exact ⟨fs, ho, hnode.part hpart, hle _ _ hchain⟩
  closures c hc := by
    rw [hclosures] at hc
    cases hc

/-- The first part of the code in hand is evaluated on the same machine. -/
theorem Scoped.first {k : Kind} {t : Task ι k} {env : FrameId} {node part : Node ι}
    (hx : x.Scoped p root o) (hcode : x.task.code? = some (env, node)) (hpart : part ∈ node.parts)
    (ht : t.code? = some (env, part)) (hclosures : t.closures = []) :
    Scoped p root o ⟨t, x.machine⟩ :=
  hx.part hx.store (le_refl _) hcode hpart ht hclosures

/-- A part of a node is opened with everything in its place. -/
theorem Opens.scoped_part {i : Nat} (h : x.Opens limit (.part i) y) (hx : x.Scoped p root o) :
    y.Scoped p root o := by
  cases h with
  | array | unary | binaryLeft | callee | indexLeft | head | expr | ret | bind | blockFirst
  | programFirst => exact hx.first rfl (by simp [Node.parts]) rfl rfl
  | @condition _ _ _ no => exact hx.first rfl (by cases no <;> simp [Node.parts]) rfl rfl
  | binaryRight h | arguments h | indexRight h | tail h | blockNext h | programNext h =>
    obtain ⟨hle, hm, -⟩ := h.scoped (hx.first rfl (by simp [Node.parts]) rfl rfl)
    exact hx.part hm hle rfl (by simp [Node.parts]) rfl rfl
  | @condYes _ _ _ no _ _ _ h =>
    obtain ⟨hle, hm, -⟩ := h.scoped (hx.first rfl (by cases no <;> simp [Node.parts]) rfl rfl)
    exact hx.part hm hle rfl (by cases no <;> simp [Node.parts]) rfl rfl
  | condNo h =>
    obtain ⟨hle, hm, -⟩ := h.scoped (hx.first rfl (by simp [Node.parts]) rfl rfl)
    exact hx.part hm hle rfl (by simp [Node.parts]) rfl rfl
  | application hf hes =>
    obtain ⟨hle₁, hm₁, hv⟩ := hf.scoped (hx.first rfl (by simp [Node.parts]) rfl rfl)
    obtain ⟨hle₂, hm₂, hvs⟩ := hes.scoped (hx.part hm₁ hle₁ rfl (by simp [Node.parts]) rfl rfl)
    exact ⟨hm₂, nofun, List.forall_mem_append.2 ⟨Closure.placed_mono_all hle₂ hv, hvs⟩⟩

/-- The body of a closure is opened directly inside its literal. -/
theorem Opens.scoped_body {f : FnLiteral ι} {env : FrameId} {args : List (Value ι)}
    {m : Machine ι} (h : Opens limit ⟨.apply (.closure f env) args, m⟩ .body y)
    (hx : Scoped p root o ⟨.apply (.closure f env) args, m⟩) : y.Scoped p root (some f) := by
  cases h with
  | body =>
    obtain ⟨hclosure, hargs⟩ := List.forall_mem_append.1 hx.closures
    obtain ⟨fs, hf, hchain⟩ := hclosure _ List.mem_cons_self
    obtain ⟨hs, -, hnext⟩ := hx.store.enter hf hchain hargs
    refine ⟨hs, ?_, nofun⟩
    rintro _ _ ⟨⟩
    exact ⟨f :: fs, rfl, hf.body, hnext⟩

/-- What a moment opens by a call is a body. -/
theorem Opens.body_cases (h : x.Opens limit .body y) :
    ∃ f env args m, x = ⟨.apply (.closure f env) args, m⟩ := by
  cases h
  exact ⟨_, _, _, _, rfl⟩

/-- In the course of a moment with everything in its place there is no other one. -/
theorem Course.scoped {place : Place} (h : x.Course limit place y) (hx : x.Scoped p root o) :
    ∃ o', y.Scoped p root o' := by
  induction h generalizing o with
  | here => exact ⟨o, hx⟩
  | @inside x _ _ i _ hopens _ ih =>
    cases i with
    | part i => exact ih (hopens.scoped_part hx)
    | body =>
      obtain ⟨f, env, args, m, rfl⟩ := hopens.body_cases
      exact ih (hopens.scoped_body hx)

/-- Until the next call the code stands directly inside the same function literal. -/
theorem Course.scoped_of_not_body {place : Place} (h : x.Course limit place y)
    (hplace : .body ∉ place) (hx : x.Scoped p root o) : y.Scoped p root o := by
  induction h with
  | here => exact hx
  | @inside _ _ _ i _ hopens _ ih =>
    cases i with
    | part i => exact ih (mt (List.mem_cons_of_mem _) hplace) (hopens.scoped_part hx)
    | body => exact absurd List.mem_cons_self hplace

/-- At a place in the course of a moment the code is that of the body of a function literal,
the last one called on the way, or that of the moment itself. -/
inductive Inside (limit : Option Nat) (x : Moment ι) : Place → Option (FnLiteral ι) → Prop
  | top {place : Place} : .body ∉ place → Inside limit x place none
  | body {before after : Place} {f : FnLiteral ι} {env : FrameId} {args : List (Value ι)}
      {m : Machine ι} : x.Course limit before ⟨.apply (.closure f env) args, m⟩ →
      .body ∉ after → Inside limit x (before ++ .body :: after) (some f)

/-- At every place there is such a literal or none has been called. -/
theorem Course.exists_inside {place : Place} (h : x.Course limit place y) :
    ∃ o, x.Inside limit place o := by
  by_cases hplace : .body ∈ place
  · obtain ⟨before, after, rfl, hafter⟩ : ∃ before after, place = before ++ .body :: after ∧
        .body ∉ after := by
      obtain ⟨after, before, heq, hnot⟩ :=
        List.eq_append_cons_of_mem (List.mem_reverse.2 hplace)
      refine ⟨before.reverse, after.reverse, ?_, by simpa using hnot⟩
      rw [← List.reverse_reverse place, heq]
      simp
    obtain ⟨z, hbefore, hrest⟩ := append_iff.1 h
    cases hrest with
    | inside hopens _ =>
      obtain ⟨f, env, args, m, rfl⟩ := hopens.body_cases
      exact ⟨some f, .body hbefore hafter⟩
  · exact ⟨none, .top hplace⟩

/-- What comes after the last call tells what comes before it. -/
theorem before_eq_of_not_body {before before' after after' : Place}
    (heq : before ++ .body :: after = before' ++ .body :: after') (hafter : .body ∉ after)
    (hafter' : .body ∉ after') : before = before' := by
  rcases List.append_eq_append_iff.1 heq with ⟨c, rfl, hc⟩ | ⟨c, rfl, hc⟩
  · cases c with
    | nil => exact (List.append_nil _).symm
    | cons i c =>
      cases hc
      exact absurd (List.mem_append_right _ List.mem_cons_self) hafter
  · cases c with
    | nil => exact List.append_nil _
    | cons i c =>
      cases hc
      exact absurd (List.mem_append_right _ List.mem_cons_self) hafter'

/-- And not more than one. -/
theorem Inside.unique {place : Place} {o' : Option (FnLiteral ι)} (h : x.Inside limit place o)
    (h' : x.Inside limit place o') : o' = o := by
  generalize hq : place = q at h'
  cases h with
  | top hnot =>
    cases h' with
    | top => rfl
    | body => exact absurd (hq ▸ List.mem_append_right _ List.mem_cons_self) hnot
  | body hcall hafter =>
    cases h' with
    | top hnot => exact absurd (hq ▸ List.mem_append_right _ List.mem_cons_self) hnot
    | body hcall' hafter' =>
      obtain rfl := before_eq_of_not_body hq hafter hafter'
      cases hcall.unique hcall'
      rfl

/-- The code at a place stands directly inside the literal last called. -/
theorem Inside.scoped {place : Place} (hplace : x.Inside limit place o)
    (h : x.Course limit place y) (hx : x.Scoped p root none) : y.Scoped p root o := by
  cases hplace with
  | top hnot => exact h.scoped_of_not_body hnot hx
  | body hbefore hafter =>
    obtain ⟨z, hz, hrest⟩ := Course.append_iff.1 h
    obtain rfl := hbefore.unique hz
    obtain ⟨o', hz'⟩ := hbefore.scoped hx
    cases hrest with
    | inside hopens hrest => exact hrest.scoped_of_not_body hafter (hopens.scoped_body hz')

end Moment

/-! ## The theorem -/

/-- The start of a program in a root of its own, which is the first frame on an empty store. -/
def Program.inNewRoot (p : Program ι) (m : Machine ι) : Moment ι :=
  ⟨.program m.store.next p.statements, (m.addFrame none).2⟩

theorem Program.inNewRoot_scoped (p : Program ι) (m : Machine ι) :
    (p.inNewRoot m).Scoped p m.store.next none := by
  obtain ⟨hchain, hs⟩ := m.store.scoped_push_none p
  refine ⟨hs, ?_, nofun⟩
  rintro _ _ ⟨⟩
  exact ⟨[], rfl, .whole, hchain⟩

/-- **Scope chains follow the text.** A program is run in a root of its own. At every moment
of the run the code that is evaluated stands in the text, directly inside the literal last
called, and as many frames are around the one in hand as there are function literals around
the code; the same holds of the literal and the captured frame of every closure that is
applied, passed, bound in a frame or given at an end. No chain from a frame of the run, which
is what a lookup walks, is longer than one plus the deepest nesting of function literals.
Where no two literals share a label, as in a numbered program, each stands at one place of
the text alone, and that place tells the length of the chain. -/
theorem chains_follow_the_text (limit : Option Nat) (p : Program ι) (m : Machine ι)
    {place : Place} {y : Moment ι} (h : (p.inNewRoot m).Course limit place y) :
    let root := m.store.next
    ∃ o, (p.inNewRoot m).Inside limit place o ∧
      y.Scoped p root o ∧
      (∀ r m', y.Ends limit r m' → m'.store.Scoped p root ∧
        ∀ c ∈ y.kind.closures r, c.Placed p (m'.store.HasChain root)) ∧
      (∀ id, root ≤ id → (y.machine.store.chain id).length ≤ p.nesting + 1) ∧
      (p.labels.Nodup → ∀ fs,
        (∀ env node, y.task.code? = some (env, node) → p.Contains fs node → fs.head? = o →
          y.machine.store.HasChain root fs.length env) ∧
        ∀ c : Closure ι, c.Placed p (y.machine.store.HasChain root) →
          p.Contains fs (.expression (.fn c.literal)) →
          y.machine.store.HasChain root fs.length c.env) := by
  intro root
  obtain ⟨o, hplace⟩ := h.exists_inside
  have hy := hplace.scoped h (p.inNewRoot_scoped m)
  refine ⟨o, hplace, hy, fun r m' hends => (hends.scoped hy).2, fun id hid => ?_,
    fun hp fs => ⟨fun env node hcode hnode ho => ?_, fun c hc hf => hc.at hp hf⟩⟩
  · by_cases hlt : id < y.machine.store.next
    · obtain ⟨k, hk, hchain⟩ := hy.store.chains id hid hlt
      rw [hchain.length_eq]
      exact Nat.succ_le_succ hk
    · rw [Store.chain_of_not_frame (Array.getElem?_eq_none (Nat.le_of_not_lt hlt))]
      exact Nat.zero_le _
  · obtain ⟨gs, ho', hnode', hchain⟩ := hy.code env node hcode
    rwa [hnode'.unique_of_head hp hnode (ho'.trans ho.symm)] at hchain

attribute [local semireducible] Store.lookup

/-- A function of the outermost scope, called from inside two others: three calls are in
progress, and its body has two frames to look names up in. -/
theorem chains_follow_the_text_below_two_calls :
    let f : FnLiteral Nat := ⟨0, [], [.expr (.int 1)]⟩
    let inner : FnLiteral Nat := ⟨2, [], [.expr (.call (.ident "f") [])]⟩
    let outer : FnLiteral Nat := ⟨1, [], [.expr (.call (.fn inner) [])]⟩
    let p : Program Nat := ⟨[.bind "f" (.fn f), .expr (.call (.fn outer) [])]⟩
    let m : Machine Nat := ⟨.empty, .silent, 0⟩
    ∃ place m', (p.inNewRoot m).Course none place ⟨.block 3 f.body, m'⟩ ∧ m'.depth = 3 ∧
      m'.store.HasChain 0 1 3 := by
  intro f inner outer p m
  let m₁ : Machine Nat := (m.addFrame none).2.bind 0 "f" (.closure f 0)
  let m₂ : Machine Nat := (m₁.enter outer 0 []).enter inner 1 []
  have hlookup : Moment.Ends none ⟨.expression 2 (.ident "f"), m₂⟩ (.ok (.closure f 0)) m₂ := rfl
  have hadmits : ∀ d, Admits none d := by
    rintro _ _ ⟨⟩
  have himmediate : ∀ env l e (n : Machine Nat),
      Moment.Course none ⟨.expression env (.call (.fn ⟨l, [], [.expr e]⟩) []), n⟩
        [.part 2, .body, .part 0, .part 0]
        ⟨.expression n.store.next e, n.enter ⟨l, [], [.expr e]⟩ env []⟩ := fun _ _ _ _ =>
    .inside (.application rfl rfl) (.inside (.body rfl (hadmits _)) (.inside .blockFirst
      (.inside .expr .here)))
  have hstart : (p.inNewRoot m).Course none [.part 1, .part 0, .part 0]
      ⟨.expression 0 (.call (.fn outer) []), m₁⟩ :=
    .inside (.programNext rfl) (.inside .programFirst (.inside .expr .here))
  have hcall := Moment.Course.append_iff.2 ⟨_, hstart, Moment.Course.append_iff.2
    ⟨_, himmediate 0 1 _ m₁, Moment.Course.append_iff.2 ⟨_, himmediate 1 2 _ (m₁.enter outer 0 []),
      .inside (.application hlookup rfl) .here⟩⟩⟩
  have hbody := Moment.Course.append_iff.2 ⟨_, hcall, .inside (.body rfl (hadmits _)) .here⟩
  obtain ⟨o, hinside, -, -, -, hexact⟩ := chains_follow_the_text none p m hbody
  have hf : (p.inNewRoot m).Inside none _ (some f) := .body hcall List.not_mem_nil
  have ho : o = some f := hf.unique hinside
  have hcontains : p.Contains [f] (.block f.body) :=
    .body (.part (.part .whole List.mem_cons_self) List.mem_cons_self)
  exact ⟨_, _, hbody, rfl, (hexact (by decide) [f]).1 _ _ rfl hcontains ho.symm⟩

end Monkey
