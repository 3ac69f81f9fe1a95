import Mathlib.Data.List.Nodup
import Monkey.Proofs.Isolation

/-!
# Monkey — chains of frames

Outward from a frame stand the frame around it, the frame around that one, and so on up
to a root. A lookup walks this chain and nothing else (`Store.lookup_eq_chain`). The
frame around a frame is settled when the frame is made: later frames and bindings leave
the chains there are alone.
-/

namespace Monkey

variable {ι : Type}

namespace Store

/-! ## The walk outward -/

/-- The frames from a frame outward, each inside the next one. -/
def chain (s : Store ι) (id : FrameId) : List FrameId :=
  if h : id < s.frames.size then
    match hp : s.frames[id].parent with
    | some p => id :: s.chain p
    | none => [id]
  else []
termination_by id
decreasing_by exact s.parent_lt id h p hp

variable {s t : Store ι} {id p root : FrameId} {f : Frame ι}

theorem chain_of_root (hf : s.frames[id]? = some f) (hp : f.parent = none) : s.chain id = [id] := by
  obtain ⟨hlt, rfl⟩ := Array.getElem?_eq_some_iff.1 hf
  rw [chain, dif_pos hlt]
  split
  · rename_i p hp'
    cases hp.symm.trans hp'
  · rfl

theorem chain_of_inside (hf : s.frames[id]? = some f) (hp : f.parent = some p) :
    s.chain id = id :: s.chain p := by
  obtain ⟨hlt, rfl⟩ := Array.getElem?_eq_some_iff.1 hf
  rw [chain, dif_pos hlt]
  split
  · rename_i p' hp'
    cases hp.symm.trans hp'
    rfl
  · rename_i hp'
    cases hp.symm.trans hp'

theorem chain_of_not_frame (hf : s.frames[id]? = none) : s.chain id = [] := by
  rw [chain, dif_neg]
  exact Nat.not_lt.2 (Array.getElem?_eq_none_iff.1 hf)

/-- The chain from a frame begins with the frame. -/
theorem chain_of_frame (hf : s.frames[id]? = some f) : ∃ outer, s.chain id = id :: outer := by
  cases hp : f.parent with
  | none => exact ⟨_, chain_of_root hf hp⟩
  | some p => exact ⟨_, chain_of_inside hf hp⟩

/-- A lookup walks the chain outward to the first frame that binds the name. -/
theorem lookup_eq_chain (s : Store ι) (id : FrameId) (x : String) :
    s.lookup id x = (s.chain id).findSome? fun i => s.frames[i]?.bind (·.get? x) := by
  induction id using Nat.strongRecOn with
  | ind id ih =>
    cases hf : s.frames[id]? with
    | none =>
      rw [lookup_of_not_frame hf, chain_of_not_frame hf]
      rfl
    | some f =>
      rw [lookup_of_frame hf]
      cases hp : f.parent with
      | none =>
        rw [chain_of_root hf hp, List.findSome?_cons, hf]
        cases hx : f.get? x <;> simp [hx]
      | some p =>
        rw [chain_of_inside hf hp, List.findSome?_cons, hf]
        cases hx : f.get? x <;> simp [hx, ih p (parent_lt_of_frame hf hp)]

/-- The chain from a frame depends on the frames around that frame and older ones. -/
theorem chain_congr
    (h : ∀ i ≤ id, t.frames[i]?.map Frame.parent = s.frames[i]?.map Frame.parent) :
    t.chain id = s.chain id := by
  induction id using Nat.strongRecOn with
  | ind id ih =>
    have hid := h id (Nat.le_refl id)
    cases hf : s.frames[id]? with
    | none =>
      rw [hf, Option.map_none, Option.map_eq_none_iff] at hid
      rw [chain_of_not_frame hf, chain_of_not_frame hid]
    | some f =>
      rw [hf, Option.map_some, Option.map_eq_some_iff] at hid
      obtain ⟨g, hg, hparent⟩ := hid
      cases hp : f.parent with
      | none => rw [chain_of_root hf hp, chain_of_root hg (hparent.trans hp)]
      | some p =>
        have hlt := parent_lt_of_frame hf hp
        rw [chain_of_inside hf hp, chain_of_inside hg (hparent.trans hp),
          ih p hlt fun i hi => h i (Nat.le_trans hi (Nat.le_of_lt hlt))]

/-- A new frame leaves the chains there are alone. -/
theorem chain_push_of_lt (s : Store ι) (parent : Option FrameId) (h : id < s.next) :
    (s.push parent).chain id = s.chain id :=
  chain_congr fun _ hi =>
    congrArg _ (s.frames_push_of_lt parent (Nat.lt_of_le_of_lt hi h))

/-- A binding leaves every chain alone. -/
theorem chain_bind (s : Store ι) (env : FrameId) (x : String) (v : Value ι) (id : FrameId) :
    (s.bind env x v).chain id = s.chain id := by
  refine chain_congr fun i _ => ?_
  rw [frames_bind]
  split
  · rw [Option.map_map]
    rfl
  · rfl

/-- The frames of a chain are older than its first one. -/
theorem le_of_mem_chain {i : FrameId} (h : i ∈ s.chain id) : i ≤ id := by
  induction id using Nat.strongRecOn with
  | ind id ih =>
    cases hf : s.frames[id]? with
    | none =>
      rw [chain_of_not_frame hf] at h
      cases h
    | some f =>
      cases hp : f.parent with
      | none =>
        rw [chain_of_root hf hp] at h
        exact Nat.le_of_eq (List.mem_singleton.1 h)
      | some p =>
        have hlt := parent_lt_of_frame hf hp
        rw [chain_of_inside hf hp] at h
        rcases List.mem_cons.1 h with rfl | h
        · exact Nat.le_refl _
        · exact Nat.le_trans (ih p hlt h) (Nat.le_of_lt hlt)

/-- A chain visits no frame twice: outward the frames are older and older. -/
theorem chain_nodup (s : Store ι) (id : FrameId) : (s.chain id).Nodup := by
  induction id using Nat.strongRecOn with
  | ind id ih =>
    cases hf : s.frames[id]? with
    | none =>
      rw [chain_of_not_frame hf]
      exact List.nodup_nil
    | some f =>
      cases hp : f.parent with
      | none =>
        rw [chain_of_root hf hp]
        exact List.nodup_singleton id
      | some p =>
        have hlt := parent_lt_of_frame hf hp
        rw [chain_of_inside hf hp, List.nodup_cons]
        exact ⟨fun hmem => Nat.not_lt.2 (le_of_mem_chain hmem) hlt, ih p hlt⟩

/-! ## Chains of a known length -/

/-- Outward from a frame there are `k` others, the last one of them the root. -/
structure HasChain (s : Store ι) (root : FrameId) (k : Nat) (id : FrameId) : Prop where
  length_eq : (s.chain id).length = k + 1
  getLast?_eq : (s.chain id).getLast? = some root

namespace HasChain

variable {k : Nat}

theorem of_root (hf : s.frames[root]? = some f) (hp : f.parent = none) :
    s.HasChain root 0 root := by
  constructor <;> rw [chain_of_root hf hp] <;> rfl

theorem inside (h : s.HasChain root k p) (hf : s.frames[id]? = some f) (hp : f.parent = some p) :
    s.HasChain root (k + 1) id where
  length_eq := by rw [chain_of_inside hf hp, List.length_cons, h.length_eq]
  getLast?_eq := by
    rw [chain_of_inside hf hp, List.getLast?_cons, h.getLast?_eq]
    rfl

/-- A frame from which a chain leads outward is there. -/
theorem exists_frame (h : s.HasChain root k id) : ∃ f, s.frames[id]? = some f := by
  cases hf : s.frames[id]? with
  | none =>
    have hlength := h.length_eq
    rw [chain_of_not_frame hf] at hlength
    cases hlength
  | some f => exact ⟨f, rfl⟩

theorem lt_next (h : s.HasChain root k id) : id < s.next := by
  obtain ⟨f, hf⟩ := h.exists_frame
  exact lt_next_of_frames hf

/-- From the frame around a frame the chain goes on. -/
theorem outward (h : s.HasChain root k id) (hf : s.frames[id]? = some f)
    (hp : f.parent = some p) : ∃ j, k = j + 1 ∧ s.HasChain root j p := by
  obtain ⟨hlength, hlast⟩ := h
  -- the frame around a frame is there too, so its chain is not empty
  have hlt := Nat.lt_trans (parent_lt_of_frame hf hp) (lt_next_of_frames hf)
  obtain ⟨outer, houter⟩ := chain_of_frame (Array.getElem?_eq_getElem hlt)
  rw [chain_of_inside hf hp, houter] at hlength hlast
  refine ⟨outer.length, (Nat.succ.inj hlength).symm, ?_, ?_⟩
  · rw [houter, List.length_cons]
  · rw [houter, ← hlast, List.getLast?_cons_cons]

/-- Every frame of the chain is the root or made after it. -/
theorem root_le (h : s.HasChain root k id) : root ≤ id := by
  induction id using Nat.strongRecOn generalizing k with
  | ind id ih =>
    obtain ⟨f, hf⟩ := h.exists_frame
    cases hp : f.parent with
    | none =>
      have hlast := h.getLast?_eq
      rw [chain_of_root hf hp] at hlast
      cases hlast
      exact Nat.le_refl _
    | some p =>
      obtain ⟨j, -, hp'⟩ := h.outward hf hp
      have hlt := parent_lt_of_frame hf hp
      exact Nat.le_trans (ih p hlt hp') (Nat.le_of_lt hlt)

theorem congr (h : s.HasChain root k id) (heq : t.chain id = s.chain id) : t.HasChain root k id :=
  ⟨heq ▸ h.length_eq, heq ▸ h.getLast?_eq⟩

theorem push (h : s.HasChain root k id) (parent : Option FrameId) :
    (s.push parent).HasChain root k id :=
  h.congr (s.chain_push_of_lt parent h.lt_next)

/-- Inside a frame with a chain a new frame has a chain longer by one. -/
theorem push_next (h : s.HasChain root k p) : (s.push (some p)).HasChain root (k + 1) s.next :=
  (h.push _).inside (s.frames_push_next h.lt_next) rfl

end HasChain

theorem hasChain_bind (s : Store ι) (env : FrameId) (x : String) (v : Value ι) :
    (s.bind env x v).HasChain root = s.HasChain root := by
  ext k id
  have heq := s.chain_bind env x v id
  exact ⟨fun h => h.congr heq.symm, fun h => h.congr heq⟩

theorem hasChain_bindAll (s : Store ι) (env : FrameId) (xs : List String) (vs : List (Value ι)) :
    (s.bindAll env xs vs).HasChain root = s.HasChain root := by
  rw [bindAll]
  generalize xs.zip vs = bs
  induction bs generalizing s with
  | nil => rfl
  | cons b bs ih => rw [List.foldl_cons, ih, hasChain_bind]

end Store

end Monkey
