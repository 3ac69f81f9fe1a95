import Mathlib.Data.Nat.Basic
import Monkey.Proofs.Isolation
import Monkey.Proofs.Mirror

/-!
# Monkey — runs that number their frames differently

Frames are numbered in the order of their creation, so a run that begins on a store
with more frames gives higher numbers to its own. It goes as it would without them if
nothing leads to them: every frame number below a base stays, and those from the base
on are higher by the same amount (`shift`). `Store.Shifted` is kept by all that a run
does with its store, which makes it a `Mirror`. Its worlds are the number of frames of
the first run: no value leads to a frame that is not there.
-/

namespace Monkey

variable {ι : Type}

/-! ## Frames -/

/-- Two lists of bindings are alike: the same names in the same order, bound to alike
values. -/
abbrev BindingsAlike (C : FnLiteral ι → FrameId → FrameId → Prop) :
    List (String × Value ι) → List (String × Value ι) → Prop :=
  List.Forall₂ fun b c => c.1 = b.1 ∧ b.2.Alike C c.2

/-- Two frames are alike: alike bindings, and the frame around them under another
number. -/
structure Frame.Alike (C : FnLiteral ι → FrameId → FrameId → Prop) (σ : FrameId → FrameId)
    (f g : Frame ι) : Prop where
  parent_eq : g.parent = f.parent.map σ
  bindings : BindingsAlike C f.bindings g.bindings

section Frames

variable {C D : FnLiteral ι → FrameId → FrameId → Prop} {σ : FrameId → FrameId}
variable {bs cs : List (String × Value ι)} {f g : Frame ι}

/-- A name is bound on both sides, to alike values, or on neither. -/
theorem BindingsAlike.lookup (h : BindingsAlike C bs cs) (x : String) :
    Option.Rel (Value.Alike C) (bs.lookup x) (cs.lookup x) := by
  induction h with
  | nil => exact .none
  | @cons b c _ _ hb _ ih =>
    rw [List.lookup_cons, List.lookup_cons, hb.1]
    cases x == b.1 with
    | true => exact .some hb.2
    | false => exact ih

/-- A name that is bound on both sides keeps its place in both lists, or is the last of both. -/
theorem BindingsAlike.rebind (h : BindingsAlike C bs cs) (x : String) {v w : Value ι}
    (hv : v.Alike C w) : BindingsAlike C (Frame.rebind x v bs) (Frame.rebind x w cs) := by
  induction h with
  | nil => exact .cons ⟨rfl, hv⟩ .nil
  | @cons b c _ _ hb hbs ih =>
    obtain ⟨y, u⟩ := b
    obtain ⟨z, u'⟩ := c
    obtain ⟨rfl, hu⟩ := hb
    rw [Frame.rebind, Frame.rebind]
    split
    · exact .cons ⟨rfl, hv⟩ hbs
    · exact .cons ⟨rfl, hu⟩ ih

namespace Frame.Alike

theorem mono (hCD : ∀ f a b, C f a b → D f a b) (h : f.Alike C σ g) : f.Alike D σ g where
  parent_eq := h.parent_eq
  bindings := h.bindings.imp fun _ _ hb => ⟨hb.1, hb.2.mono hCD⟩

/-- New frames are alike if the frames around them are counterparts. -/
theorem empty (parent : Option FrameId) :
    (Frame.empty parent : Frame ι).Alike C σ (Frame.empty (parent.map σ)) :=
  ⟨rfl, .nil⟩

theorem get? (h : f.Alike C σ g) (x : String) :
    Option.Rel (Value.Alike C) (f.get? x) (g.get? x) :=
  h.bindings.lookup x

theorem bind (h : f.Alike C σ g) (x : String) {v w : Value ι} (hv : v.Alike C w) :
    (f.bind x v).Alike C σ (g.bind x w) :=
  ⟨h.parent_eq, h.bindings.rebind x hv⟩

end Frame.Alike

end Frames

/-! ## Stores -/

/-- The number of a frame in a store that has `k` more frames before `base`. -/
def shift (base k id : Nat) : Nat := if id < base then id else id + k

section Shift

variable {base k : Nat}

theorem shift_of_lt {id : Nat} (h : id < base) : shift base k id = id := if_pos h

theorem shift_of_le {id : Nat} (h : base ≤ id) : shift base k id = id + k :=
  if_neg (Nat.not_lt.2 h)

/-- No two frames are shifted to one number, so a write reaches one counterpart only. -/
theorem shift_injective : Function.Injective (shift base k) := by
  intro a b h
  unfold shift at h
  split at h <;> split at h <;> omega

/-- A frame is there if the shifted one is. -/
theorem shift_lt_iff {id n : Nat} (hn : base ≤ n) : shift base k id < n + k ↔ id < n := by
  unfold shift
  split <;> omega

end Shift

/-- A closure leads to a frame below `n`, and to the shifted one. -/
def ShiftedBelow (base k n : Nat) (_ : FnLiteral ι) (a b : FrameId) : Prop :=
  a < n ∧ b = shift base k a

/-- Frames that are made later do not matter. -/
theorem ShiftedBelow.mono {base k n n' : Nat} (hle : n ≤ n') (f : FnLiteral ι) (a b : FrameId)
    (h : ShiftedBelow base k n f a b) : ShiftedBelow base k n' f a b :=
  ⟨Nat.lt_of_lt_of_le h.1 hle, h.2⟩

/-- The second store has the frames of the first, shifted. -/
structure Store.Shifted (base k : Nat) (s t : Store ι) : Prop where
  base_le : base ≤ s.next
  next_eq : t.next = s.next + k
  frames (id : FrameId) :
    Option.Rel (Frame.Alike (ShiftedBelow base k s.next) (shift base k)) s.frames[id]?
      t.frames[shift base k id]?

namespace Store.Shifted

variable {base k : Nat} {s t : Store ι}

/-- A name has alike values, seen from a frame and from the shifted one. The induction
goes outward, to frames made before. -/
theorem lookup (h : s.Shifted base k t) (id : FrameId) (x : String) :
    Option.Rel (Value.Alike (ShiftedBelow base k s.next)) (s.lookup id x)
      (t.lookup (shift base k id) x) := by
  induction id using Nat.strongRecOn with
  | ind id ih =>
    have hframe := h.frames id
    generalize hf : s.frames[id]? = f, hg : t.frames[shift base k id]? = g at hframe
    cases hframe with
    | none =>
      rw [lookup_of_not_frame hf, lookup_of_not_frame hg]
      exact .none
    | @some f g hfg =>
      rw [lookup_of_frame hf, lookup_of_frame hg, hfg.parent_eq]
      have hget := hfg.get? x
      generalize f.get? x = v, g.get? x = w at hget
      cases hget with
      | some hv => exact .some hv
      | none =>
        cases hp : f.parent with
        | none => exact .none
        | some p => exact ih p (parent_lt_of_frame hf hp)

/-- A binding in a frame on the one side is one in the shifted frame on the other. -/
theorem bind (h : s.Shifted base k t) (id : FrameId) (x : String) {v w : Value ι}
    (hv : v.Alike (ShiftedBelow base k s.next) w) :
    (s.bind id x v).Shifted base k (t.bind (shift base k id) x w) where
  base_le := by rw [next_bind]; exact h.base_le
  next_eq := by rw [next_bind, next_bind]; exact h.next_eq
  frames i := by
    rw [next_bind, frames_bind, frames_bind]
    simp only [shift_injective.eq_iff]
    split
    · have hframe := h.frames i
      generalize s.frames[i]? = f, t.frames[shift base k i]? = g at hframe
      cases hframe with
      | none => exact .none
      | some hfg => exact .some (hfg.bind x hv)
    · exact h.frames i

/-- The frames that are made next are counterparts. -/
theorem shift_next (h : s.Shifted base k t) : shift base k s.next = t.next := by
  rw [shift_of_le h.base_le, h.next_eq]

/-- A parent is there in both stores or in neither. -/
theorem filter_parent (h : s.Shifted base k t) (id : FrameId) :
    (some (shift base k id)).filter (· < t.next) =
      ((some id).filter (· < s.next)).map (shift base k) := by
  simp only [Option.filter_some, h.next_eq, shift_lt_iff h.base_le, decide_eq_true_eq]
  split <;> rfl

/-- So both stores can be given a frame, inside counterparts. -/
theorem push (h : s.Shifted base k t) (id : FrameId) :
    (s.push (some id)).Shifted base k (t.push (some (shift base k id))) where
  base_le := by rw [next_push]; exact Nat.le_succ_of_le h.base_le
  next_eq := by rw [next_push, next_push, h.next_eq, Nat.add_right_comm]
  frames i := by
    rw [next_push, frames_push, frames_push, h.filter_parent]
    simp only [← h.shift_next, shift_injective.eq_iff]
    split
    · exact .some (.empty _)
    · have hframe := h.frames i
      generalize s.frames[i]? = f, t.frames[shift base k i]? = g at hframe
      cases hframe with
      | none => exact .none
      | some hfg => exact .some (hfg.mono (ShiftedBelow.mono (Nat.le_succ _)))

/-- Parameters are bound one after the other, to alike arguments. -/
theorem bindAll (h : s.Shifted base k t) (id : FrameId) (xs : List String)
    {vs ws : List (Value ι)}
    (hvs : List.Forall₂ (Value.Alike (ShiftedBelow base k s.next)) vs ws) :
    (s.bindAll id xs vs).Shifted base k (t.bindAll (shift base k id) xs ws) := by
  induction xs generalizing s t vs ws with
  | nil => exact h
  | cons x xs ih =>
    cases hvs with
    | nil => exact h
    | @cons v w vs ws hv hvs =>
      have hnext := s.next_bind id x v
      exact ih (h.bind id x hv) (hnext ▸ hvs)

/-- The body of a function starts in a new frame, and that is the shifted one. -/
theorem enter (h : s.Shifted base k t) (f : FnLiteral ι) (env : FrameId)
    {args args' : List (Value ι)}
    (hargs : List.Forall₂ (Value.Alike (ShiftedBelow base k s.next)) args args') :
    (s.enter f env args).Shifted base k (t.enter f (shift base k env) args') := by
  rw [Store.enter, Store.enter, ← h.shift_next]
  refine (h.push env).bindAll _ _ (Value.Alike.mono_list (ShiftedBelow.mono ?_) hargs)
  rw [next_push]
  exact Nat.le_succ _

end Store.Shifted

/-! ## Runs -/

/-- Two machines are alike in a world of `n` frames: the stores are, the same text has
been printed, and as many calls are in progress. -/
structure Machine.Shifted (base k n : Nat) (m m' : Machine ι) : Prop where
  next_eq : m.store.next = n
  store : m.store.Shifted base k m'.store
  printer_eq : m'.printer = m.printer
  depth_eq : m'.depth = m.depth

/-- A run on a store with more frames before a base mirrors the run without them. -/
def Mirror.shifted (ι : Type) (limit : Option Nat) (base k : Nat) : Mirror ι Nat limit where
  Machines := Machine.Shifted base k
  Closures := ShiftedBelow base k
  Frames n a b _ := a < n ∧ b = shift base k a
  closures_mono hle := ShiftedBelow.mono hle _ _ _
  frames_mono hle h := ⟨Nat.lt_of_lt_of_le h.1 hle, h.2⟩
  read h hframe := by
    obtain ⟨-, rfl⟩ := hframe
    have hread := h.store.lookup
    rw [h.next_eq] at hread
    exact hread _ _
  write := by
    rintro n m m' a _ x v v' ⟨rfl, hstore, hprinter, hdepth⟩ ⟨-, rfl⟩ hv
    exact ⟨_, Nat.le_refl _, Store.next_bind _ _ _ _, hstore.bind a x hv, hprinter, hdepth⟩
  capture h := h
  print text h := ⟨h.next_eq, h.store, congrArg (·.append text) h.printer_eq, h.depth_eq⟩
  admits_iff h := by rw [h.depth_eq]
  enter := by
    rintro n m m' f a _ args args' ⟨rfl, hstore, hprinter, hdepth⟩ ⟨-, rfl⟩ hargs
    refine ⟨m.store.next + 1, Nat.le_succ _, ⟨Store.next_enter _ _ _ _, hstore.enter f a hargs,
      hprinter, congrArg (· + 1) hdepth⟩, fun _ _ => ⟨Nat.lt_succ_self _, ?_⟩⟩
    exact hstore.shift_next.symm
  leave h := ⟨h.next_eq, h.store, h.printer_eq, congrArg (· - 1) h.depth_eq⟩

end Monkey
