import Mathlib.Data.Set.BooleanAlgebra
import Mathlib.Order.CompletePartialOrder
import Monkey.Proofs.BothWays
import Monkey.Syntax.Occurrences

/-!
# Monkey — two runs that make the same frames in the same order

Two runs of the same code begin on stores that differ, and make their own frames one
after the other, so the `k`-th frame of the one belongs to the `k`-th frame of the
other. A `Pairing` says where the two begin and which of the frames there were before
belong together; those may bind different names, and may even stand at different
depths, as long as every name that the code reads looks alike from both. `Store.Paired`
is kept by all that a run does with its store, which makes it a `Mirror`
(`Mirror.paired`). Its worlds are the number of frames made and the names that look
alike, which become more where both runs bind one.
-/

namespace Monkey

variable {ι : Type}

/-! ## Frames that belong together -/

/-- Where two runs begin, and which frames of their stores belong together there. A
frame that the runs may write belongs to no other, and no other frames belong
together. -/
structure Pairing where
  /-- The number of the first frame that the first run makes. -/
  left : Nat
  /-- The number of the first frame that the second run makes. -/
  right : Nat
  /-- Two frames that were there before belong together. -/
  Old : FrameId → FrameId → Prop
  /-- The two runs may write these. -/
  Open : FrameId → FrameId → Prop
  old_lt {a b : Nat} : Old a b → a < left ∧ b < right
  open_old {a b : FrameId} : Open a b → Old a b
  open_alone {a b a' b' : FrameId} : Open a b → Old a' b' → a' = a ∧ b' = b

/-- No other names are read there. -/
def ReadsWithin (occurrences : List Occurrence) (R : Set String) : Prop :=
  ∀ x, .identifier x ∈ occurrences → x ∈ R

namespace Pairing

variable (P : Pairing)

/-- The two frames have the same number among the first `c` that were made. -/
def Made (c : Nat) (a b : FrameId) : Prop := ∃ k < c, a = P.left + k ∧ b = P.right + k

/-- The two frames belong together once `c` frames have been made. -/
def Linked (c : Nat) (a b : FrameId) : Prop := P.Old a b ∨ P.Made c a b

/-- The two runs may write these. -/
def Writable (c : Nat) (a b : FrameId) : Prop := P.Open a b ∨ P.Made c a b

/-- A function has captured frames that belong together, and reads the given names
alone. -/
def Captured (R : Set String) (c : Nat) (f : FnLiteral ι) (a b : FrameId) : Prop :=
  P.Linked c a b ∧ ReadsWithin f.occurrences R

variable {P} {c c' a b a' b' : Nat} {R R' : Set String} {f : FnLiteral ι}

theorem Made.mono (hle : c ≤ c') (h : P.Made c a b) : P.Made c' a b := by
  obtain ⟨k, hk, ha, hb⟩ := h
  exact ⟨k, Nat.lt_of_lt_of_le hk hle, ha, hb⟩

theorem Linked.mono (hle : c ≤ c') (h : P.Linked c a b) : P.Linked c' a b :=
  h.imp_right (Made.mono hle)

theorem Writable.mono (hle : c ≤ c') (h : P.Writable c a b) : P.Writable c' a b :=
  h.imp_right (Made.mono hle)

theorem Captured.mono (hle : c ≤ c') (hR : R ⊆ R') (h : P.Captured R c f a b) :
    P.Captured R' c' f a b :=
  ⟨h.1.mono hle, fun x hx => hR (h.2 x hx)⟩

/-- The frames that are made next belong together. -/
theorem made_last : P.Made (c + 1) (P.left + c) (P.right + c) :=
  ⟨c, Nat.lt_succ_self c, rfl, rfl⟩

theorem Linked.lt (h : P.Linked c a b) : a < P.left + c ∧ b < P.right + c := by
  rcases h with hold | ⟨k, hk, rfl, rfl⟩
  · have := P.old_lt hold
    omega
  · omega

/-- The old frames are older. -/
theorem Made.old_lt (h : P.Made c a b) (hold : P.Old a' b') : a' < a ∧ b' < b := by
  obtain ⟨k, -, rfl, rfl⟩ := h
  have := P.old_lt hold
  omega

/-- A frame that was made belongs to one frame alone. -/
theorem Made.eq_iff (h : P.Made c a b) (h' : P.Made c' a' b') : a = a' ↔ b = b' := by
  obtain ⟨k, -, rfl, rfl⟩ := h
  obtain ⟨k', -, rfl, rfl⟩ := h'
  omega

end Pairing

/-- The pairing of two roots, which the runs write. -/
def Pairing.roots {a b left right : Nat} (ha : a < left) (hb : b < right) : Pairing where
  left := left
  right := right
  Old := fun (i j : Nat) => i = a ∧ j = b
  Open := fun (i j : Nat) => i = a ∧ j = b
  old_lt := by omega
  open_old := id
  open_alone := by
    rintro _ _ _ _ ⟨rfl, rfl⟩ h
    exact h

/-! ## Frames -/

/-- Two frames bind the same names, to alike values, and the frames around them belong
together. -/
structure Frame.Paired (C : FnLiteral ι → FrameId → FrameId → Prop)
    (L : FrameId → FrameId → Prop) (f g : Frame ι) : Prop where
  parent : Option.Rel L f.parent g.parent
  get? (x : String) : Option.Rel (Value.Alike C) (f.get? x) (g.get? x)

namespace Frame.Paired

variable {C D : FnLiteral ι → FrameId → FrameId → Prop} {L L' : FrameId → FrameId → Prop}
variable {f g : Frame ι}

theorem mono (hC : ∀ f a b, C f a b → D f a b) (hL : ∀ a b, L a b → L' a b)
    (h : f.Paired C L g) : f.Paired D L' g where
  parent := optionRel_mono hL h.parent
  get? x := optionRel_mono (fun _ _ => .mono hC) (h.get? x)

theorem empty {a b : FrameId} (h : L a b) :
    (Frame.empty (some a) : Frame ι).Paired C L (Frame.empty (some b)) :=
  ⟨.some h, fun _ => .none⟩

theorem bind (h : f.Paired C L g) (x : String) {v w : Value ι} (hv : v.Alike C w) :
    (f.bind x v).Paired C L (g.bind x w) where
  parent := h.parent
  get? y := by
    rw [Frame.get?_bind, Frame.get?_bind]
    split
    · exact .some hv
    · exact h.get? y

end Frame.Paired

/-! ## Stores -/

/-- Two runs have made `c` frames each: those are alike, and the names `N` look alike
from the frames that belonged together before. -/
structure Store.Paired (P : Pairing) (R : Set String) (c : Nat) (N : Set String)
    (s t : Store ι) : Prop where
  next_left : s.next = P.left + c
  next_right : t.next = P.right + c
  old {a b : FrameId} {x : String} : P.Old a b → x ∈ N →
    Option.Rel (Value.Alike (P.Captured R c)) (s.lookup a x) (t.lookup b x)
  made {a b : FrameId} : P.Made c a b →
    Option.Rel (Frame.Paired (P.Captured R c) (P.Linked c)) s.frames[a]? t.frames[b]?

namespace Store.Paired

variable {P : Pairing} {R : Set String} {c : Nat} {N : Set String} {s t : Store ι}
variable {a b : FrameId} {x : String} {v w : Value ι}

/-- A name looks alike from frames that belong together. The induction goes outward,
through the frames that were made to the old ones. -/
theorem lookup (h : s.Paired P R c N t) (hab : P.Linked c a b) (hx : x ∈ N) :
    Option.Rel (Value.Alike (P.Captured R c)) (s.lookup a x) (t.lookup b x) := by
  induction a using Nat.strongRecOn generalizing b with
  | ind a ih =>
    rcases hab with hold | hmade
    · exact h.old hold hx
    · have hframe := h.made hmade
      generalize hf : s.frames[a]? = f, hg : t.frames[b]? = g at hframe
      cases hframe with
      | none =>
        rw [lookup_of_not_frame hf, lookup_of_not_frame hg]
        exact .none
      | @some f g hfg =>
        rw [lookup_of_frame hf, lookup_of_frame hg]
        have hget := hfg.get? x
        generalize f.get? x = v, g.get? x = w at hget
        cases hget with
        | some hv => exact .some hv
        | none =>
          have hparent := hfg.parent
          generalize hp : f.parent = p, g.parent = q at hparent
          cases hparent with
          | none => exact .none
          | some hpq => exact ih _ (parent_lt_of_frame hf hp) hpq

/-- Both runs bind a name in a frame that they have made. -/
theorem bind_made (h : s.Paired P R c N t) (hab : P.Made c a b)
    (hv : v.Alike (P.Captured R c) w) : (s.bind a x v).Paired P R c N (t.bind b x w) where
  next_left := (s.next_bind a x v).trans h.next_left
  next_right := (t.next_bind b x w).trans h.next_right
  old hold hy := by
    obtain ⟨hlt, hlt'⟩ := hab.old_lt hold
    rw [s.lookup_bind_of_lt hlt, t.lookup_bind_of_lt hlt']
    exact h.old hold hy
  made {a' b'} hab' := by
    have hframe := h.made hab'
    rw [frames_bind, frames_bind]
    simp only [hab.eq_iff hab']
    split
    · generalize s.frames[a']? = f, t.frames[b']? = g at hframe
      cases hframe with
      | none => exact .none
      | some hfg => exact .some (hfg.bind x hv)
    · exact hframe

/-- Both runs bind a name in an old frame: from now on it looks alike. -/
theorem bind_open (h : s.Paired P R c N t) (hab : P.Open a b)
    (hv : v.Alike (P.Captured R c) w) :
    (s.bind a x v).Paired P R c (insert x N) (t.bind b x w) where
  next_left := (s.next_bind a x v).trans h.next_left
  next_right := (t.next_bind b x w).trans h.next_right
  old {a' b' y} hold hy := by
    obtain ⟨rfl, rfl⟩ := P.open_alone hab hold
    obtain ⟨hlt, hlt'⟩ := Pairing.Linked.lt (c := c) (.inl hold)
    rw [s.lookup_bind_self (h.next_left ▸ hlt), t.lookup_bind_self (h.next_right ▸ hlt')]
    split
    · exact .some hv
    · rename_i hne
      exact h.old hold (Set.mem_of_mem_insert_of_ne hy hne)
  made hmade := by
    obtain ⟨hlt, hlt'⟩ := hmade.old_lt (P.open_old hab)
    rw [frames_bind, frames_bind, if_neg (Nat.ne_of_lt hlt), if_neg (Nat.ne_of_lt hlt')]
    exact h.made hmade

/-- Both runs make a frame. -/
theorem push (h : s.Paired P R c N t) (hab : P.Linked c a b) :
    (s.push (some a)).Paired P R (c + 1) N (t.push (some b)) where
  next_left := by rw [next_push, h.next_left, Nat.add_assoc]
  next_right := by rw [next_push, h.next_right, Nat.add_assoc]
  old hold hx := by
    obtain ⟨hlt, hlt'⟩ := Pairing.Linked.lt (c := c) (.inl hold)
    rw [s.lookup_push_of_lt _ (h.next_left ▸ hlt), t.lookup_push_of_lt _ (h.next_right ▸ hlt')]
    exact optionRel_mono (fun _ _ => .mono fun _ _ _ => .mono (Nat.le_succ c) subset_rfl)
      (h.old hold hx)
  made := by
    rintro a' b' ⟨k, hk, rfl, rfl⟩
    have hle := Nat.le_succ c
    rcases Nat.lt_succ_iff_lt_or_eq.1 hk with hlt | rfl
    · have hmade : P.Made c (P.left + k) (P.right + k) := ⟨k, hlt, rfl, rfl⟩
      obtain ⟨hleft, hright⟩ := Pairing.Linked.lt (.inr hmade)
      rw [s.frames_push_of_lt _ (h.next_left ▸ hleft),
        t.frames_push_of_lt _ (h.next_right ▸ hright)]
      exact optionRel_mono (fun _ _ => .mono (fun _ _ _ => .mono hle subset_rfl)
        fun _ _ => .mono hle) (h.made hmade)
    · obtain ⟨hleft, hright⟩ := hab.lt
      rw [← h.next_left] at hleft ⊢
      rw [← h.next_right] at hright ⊢
      rw [s.frames_push_next hleft, t.frames_push_next hright]
      exact .some (.empty (hab.mono hle))

/-- Both runs bind names to arguments in a frame that they have made. -/
theorem bindAll (h : s.Paired P R c N t) (hab : P.Made c a b) (xs : List String)
    {vs ws : List (Value ι)} (hvs : List.Forall₂ (Value.Alike (P.Captured R c)) vs ws) :
    (s.bindAll a xs vs).Paired P R c N (t.bindAll b xs ws) := by
  induction xs generalizing s t vs ws with
  | nil => exact h
  | cons x xs ih =>
    cases hvs with
    | nil => exact h
    | cons hv hvs => exact ih (h.bind_made hab hv) hvs

/-- The bodies of alike functions start in frames that belong together. -/
theorem enter (h : s.Paired P R c N t) (hab : P.Linked c a b) (f : FnLiteral ι)
    {vs ws : List (Value ι)} (hvs : List.Forall₂ (Value.Alike (P.Captured R c)) vs ws) :
    (s.enter f a vs).Paired P R (c + 1) N (t.enter f b ws) := by
  rw [Store.enter, Store.enter, h.next_left, h.next_right]
  exact (h.push hab).bindAll Pairing.made_last _
    (Value.Alike.mono_list (fun _ _ _ => .mono (Nat.le_succ c) subset_rfl) hvs)

/-- The frames that the two runs have made are alike, one by one. -/
theorem frames (h : s.Paired P R c N t) (k : Nat) :
    Option.Rel (Frame.Paired (P.Captured R c) (P.Linked c)) s.frames[P.left + k]?
      t.frames[P.right + k]? := by
  by_cases hk : k < c
  · exact h.made ⟨k, hk, rfl, rfl⟩
  · have hs : s.frames.size ≤ P.left + k :=
      h.next_left.trans_le (Nat.add_le_add_left (Nat.le_of_not_lt hk) _)
    have ht : t.frames.size ≤ P.right + k :=
      h.next_right.trans_le (Nat.add_le_add_left (Nat.le_of_not_lt hk) _)
    rw [Array.getElem?_eq_none hs, Array.getElem?_eq_none ht]
    exact .none

/-- Two roots that belong together bind a name alike if it looks alike. -/
theorem get?_root (h : s.Paired P R c N t) (hab : P.Old a b) {f g : Frame ι}
    (hf : s.frames[a]? = some f) (hg : t.frames[b]? = some g) (hfroot : f.parent = none)
    (hgroot : g.parent = none) (hx : x ∈ N) :
    Option.Rel (Value.Alike (P.Captured R c)) (f.get? x) (g.get? x) := by
  rw [← lookup_of_root hf hfroot, ← lookup_of_root hg hgroot]
  exact h.old hab hx

/-- More may be read. -/
theorem widen {R' : Set String} (h : s.Paired P R c N t) (hR : R ⊆ R') :
    s.Paired P R' c N t where
  next_left := h.next_left
  next_right := h.next_right
  old hold hx :=
    optionRel_mono (fun _ _ => .mono fun _ _ _ => .mono (Nat.le_refl c) hR) (h.old hold hx)
  made hab := optionRel_mono
    (fun _ _ => .mono (fun _ _ _ => .mono (Nat.le_refl c) hR) fun _ _ => id) (h.made hab)

end Store.Paired

/-! ## Runs -/

/-- Two machines are alike in a world: their stores are, every name that is read looks
alike, the same text has been printed since the start, and where there is a limit as
many calls are in progress. -/
structure Machine.Paired (limit : Option Nat) (P : Pairing) (R : Set String) (p q : Printer)
    (w : Nat × Set String) (m n : Machine ι) : Prop where
  reads : R ⊆ w.2
  store : m.store.Paired P R w.1 w.2 n.store
  printed : ∃ text, m.printer = p.append text ∧ n.printer = q.append text
  depth_eq : limit ≠ none → n.depth = m.depth

theorem Machine.Paired.admits_iff {limit : Option Nat} {P : Pairing} {R : Set String}
    {p q : Printer} {w : Nat × Set String} {m n : Machine ι}
    (h : m.Paired limit P R p q w n) : Admits limit n.depth ↔ Admits limit m.depth := by
  cases limit with
  | none => exact ⟨fun _ => nofun, fun _ => nofun⟩
  | some most => rw [h.depth_eq nofun]

/-- Both runs bind a name in an old frame: from now on it looks alike. -/
theorem Machine.Paired.bind_open {limit : Option Nat} {P : Pairing} {R : Set String}
    {p q : Printer} {w : Nat × Set String} {m n : Machine ι} (h : m.Paired limit P R p q w n)
    {a b : FrameId} (hab : P.Open a b) {x : String} {v v' : Value ι}
    (hv : v.Alike (P.Captured R w.1) v') :
    (m.bind a x v).Paired limit P R p q (w.1, insert x w.2) (n.bind b x v') :=
  ⟨h.reads.trans (Set.subset_insert x w.2), h.store.bind_open hab hv, h.printed, h.depth_eq⟩

/-- Runs that read the names `R` alone mirror each other on paired stores. -/
def Mirror.paired (ι : Type) (limit : Option Nat) (P : Pairing) (R : Set String)
    (p q : Printer) : Mirror ι (Nat × Set String) limit where
  Machines := Machine.Paired limit P R p q
  Closures w := P.Captured R w.1
  Frames w a b access := P.Linked w.1 a b ∧ ReadsWithin access.occurrences R ∧
    ∀ x, access = .write x → P.Writable w.1 a b
  closures_mono hle := .mono hle.1 subset_rfl
  frames_mono hle h := ⟨h.1.mono hle.1, h.2.1, fun x hx => (h.2.2 x hx).mono hle.1⟩
  read h hframe :=
    h.store.lookup hframe.1 (h.reads (hframe.2.1 _ List.mem_cons_self))
  write {w m n a b x v v'} h hframe hv := by
    rcases hframe.2.2 x rfl with hopen | hmade
    · exact ⟨(w.1, insert x w.2), ⟨Nat.le_refl _, Set.subset_insert x w.2⟩, h.bind_open hopen hv⟩
    · exact ⟨w, le_refl w, h.reads, h.store.bind_made hmade hv, h.printed, h.depth_eq⟩
  capture h := ⟨h.1, h.2.1⟩
  print text h := by
    obtain ⟨before, hp, hq⟩ := h.printed
    refine ⟨h.reads, h.store, ⟨before ++ text, ?_, ?_⟩, h.depth_eq⟩
    · rw [hp, Printer.append_append]
    · rw [hq, Printer.append_append]
  admits_iff h := h.admits_iff
  enter {w m n f a b args args'} h hclosure hargs := by
    refine ⟨(w.1 + 1, w.2), ⟨Nat.le_succ _, subset_rfl⟩, ⟨h.reads, h.store.enter hclosure.1 f hargs,
      h.printed, fun hlimit => congrArg (· + 1) (h.depth_eq hlimit)⟩, fun access haccess => ?_⟩
    have hmade : P.Made (w.1 + 1) m.store.next n.store.next := by
      rw [h.store.next_left, h.store.next_right]
      exact Pairing.made_last
    have hreads : ReadsWithin access.occurrences R := fun x hx =>
      hclosure.2 x (f.body_occurrences_subset (Stmt.occurrences_subset haccess hx))
    exact ⟨.inr hmade, hreads, fun _ _ => .inr hmade⟩
  leave h := ⟨h.reads, h.store, h.printed, fun hlimit => congrArg (· - 1) (h.depth_eq hlimit)⟩

/-- Statements in two roots that read the given names alone have their accesses answered
alike there. -/
theorem Mirror.frames_roots {limit : Option Nat} {a b left right : Nat} (ha : a < left)
    (hb : b < right) {R : Set String} {p q : Printer} {w : Nat × Set String} {ss : Block ι}
    (h : ReadsWithin (Stmt.occurrencesList ss) R) :
    ∀ access ∈ Stmt.accessesList ss,
      (Mirror.paired ι limit (.roots ha hb) R p q).Frames w a b access :=
  fun _ haccess => ⟨.inl ⟨rfl, rfl⟩, fun x hx => h x (Stmt.occurrences_subset haccess hx),
    fun _ _ => .inl ⟨rfl, rfl⟩⟩

end Monkey
