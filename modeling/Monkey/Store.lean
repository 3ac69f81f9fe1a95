import Monkey.Text.Quoted
import Monkey.Value.Basic

/-!
# Monkey — frames and their store

A frame holds the bindings made in one scope and the number of the frame around
it. Frames are numbered in the order of their creation and the frame around a
frame is older, so a walk outward ends although the values bound in a frame may
lead back to it. Frames are never removed and a name once bound stays bound.
-/

namespace Monkey

/-- One scope: its own bindings, and the frame around it. -/
structure Frame (ι : Type) where
  bindings : List (String × Value ι)
  parent : Option FrameId

namespace Frame

variable {ι : Type}

/-- A frame that binds nothing yet. -/
def empty (parent : Option FrameId) : Frame ι := ⟨[], parent⟩

/-- The value bound to a name in this frame. -/
def get? (f : Frame ι) (name : String) : Option (Value ι) := f.bindings.lookup name

/-- The bindings after a name is bound: its old value gives way, a new name
comes last. -/
def rebind (name : String) (v : Value ι) : List (String × Value ι) → List (String × Value ι)
  | [] => [(name, v)]
  | (x, w) :: rest => if name = x then (x, v) :: rest else (x, w) :: rebind name v rest

/-- Binds a name in this frame. -/
def bind (f : Frame ι) (name : String) (v : Value ι) : Frame ι :=
  { f with bindings := rebind name v f.bindings }

/-- The names bound in this frame, in code point order. -/
def names (f : Frame ι) : List String :=
  (f.bindings.map (·.1)).mergeSort fun x y => !decide (y < x)

/-- The listing of a frame: the names bound in it and whether a frame is around
it. -/
def listing (f : Frame ι) : String :=
  "Environment \x7b names: [" ++ ", ".intercalate (f.names.map Text.quote) ++
    "], has_parent: " ++ toString f.parent.isSome ++ " \x7d"

@[simp] theorem parent_bind (f : Frame ι) (name : String) (v : Value ι) :
    (f.bind name v).parent = f.parent := rfl

theorem lookup_rebind (name x : String) (v : Value ι) (bs : List (String × Value ι)) :
    (rebind name v bs).lookup x = if x = name then some v else bs.lookup x := by
  induction bs with
  | nil => grind [rebind]
  | cons b bs ih => grind [rebind]

/-- A binding changes the value of its own name and of no other. -/
theorem get?_bind (f : Frame ι) (name x : String) (v : Value ι) :
    (f.bind name v).get? x = if x = name then some v else f.get? x :=
  lookup_rebind name x v f.bindings

theorem rebind_eq_self {name : String} {v : Value ι} {bs : List (String × Value ι)}
    (h : bs.lookup name = some v) : rebind name v bs = bs := by
  induction bs with
  | nil => cases h
  | cons b bs ih => grind [rebind]

theorem bind_eq_self {f : Frame ι} {name : String} {v : Value ι} (h : f.get? name = some v) :
    f.bind name v = f := by
  rw [bind, rebind_eq_self h]

end Frame

/-- All frames made so far. The frame around a frame is older than it. -/
structure Store (ι : Type) where
  frames : Array (Frame ι)
  parent_lt : ∀ (id : FrameId) (h : id < frames.size) (p : FrameId),
    frames[id].parent = some p → p < id

namespace Store

variable {ι : Type}

theorem ext {s t : Store ι} (h : s.frames = t.frames) : s = t := by
  cases s
  cases t
  cases h
  rfl

/-- The store without frames. -/
def empty : Store ι := ⟨#[], fun _ h => absurd h (Nat.not_lt_zero _)⟩

instance : Inhabited (Store ι) := ⟨empty⟩

/-- The number of the frame that is made next. -/
def next (s : Store ι) : FrameId := s.frames.size

/-- Adds an empty frame, inside the given one if the store has it. Its number is
`s.next`. -/
def push (s : Store ι) (parent : Option FrameId) : Store ι where
  frames := s.frames.push (Frame.empty (parent.filter (· < s.next)))
  parent_lt id h p hp := by
    rw [Array.getElem_push] at hp
    split at hp
    · exact s.parent_lt id _ p hp
    · exact Nat.lt_of_lt_of_le (of_decide_eq_true (Option.filter_eq_some_iff.1 hp).2)
        (Nat.le_of_not_lt ‹_›)

/-- Binds a name in a frame and in no other. -/
def bind (s : Store ι) (id : FrameId) (name : String) (v : Value ι) : Store ι where
  frames := s.frames.modify id (·.bind name v)
  parent_lt i h p hp := by
    simp only [Array.getElem_modify] at hp
    split at hp
    · exact s.parent_lt i (by simpa using h) p hp
    · exact s.parent_lt i (by simpa using h) p hp

/-- The value of a name seen from a frame: that of the innermost frame that
binds it. -/
def lookup (s : Store ι) (id : FrameId) (name : String) : Option (Value ι) :=
  if h : id < s.frames.size then
    match s.frames[id].get? name with
    | some v => some v
    | none =>
      match hp : s.frames[id].parent with
      | some p => s.lookup p name
      | none => none
  else none
termination_by id
decreasing_by exact s.parent_lt id h p hp

/-- The listing of a frame. -/
def listing (s : Store ι) (id : FrameId) : Option String := s.frames[id]?.map Frame.listing

@[simp] theorem next_push (s : Store ι) (parent : Option FrameId) :
    (s.push parent).next = s.next + 1 := by simp [next, push]

@[simp] theorem next_bind (s : Store ι) (id : FrameId) (name : String) (v : Value ι) :
    (s.bind id name v).next = s.next := by simp [next, bind]

/-- A new frame leaves the frames before it alone. -/
theorem frames_push_of_lt (s : Store ι) (parent : Option FrameId) {id : FrameId}
    (h : id < s.next) : (s.push parent).frames[id]? = s.frames[id]? :=
  Array.getElem?_push_lt h |>.trans (Array.getElem?_eq_getElem h).symm

theorem frames_push (s : Store ι) (parent : Option FrameId) (id : FrameId) :
    (s.push parent).frames[id]? =
      if id = s.next then some (Frame.empty (parent.filter (· < s.next))) else s.frames[id]? :=
  Array.getElem?_push

/-- The new frame is inside the given one. -/
theorem frames_push_next (s : Store ι) {p : FrameId} (h : p < s.next) :
    (s.push (some p)).frames[s.next]? = some (Frame.empty (some p)) := by
  rw [frames_push, if_pos rfl, Option.filter_some, if_pos (decide_eq_true h)]

/-- Or inside none, a root. -/
theorem frames_push_root (s : Store ι) :
    (s.push none).frames[s.next]? = some (Frame.empty none) := by
  rw [frames_push, if_pos rfl, Option.filter_none]

/-- A binding changes its own frame alone. -/
theorem frames_bind (s : Store ι) (id i : FrameId) (name : String) (v : Value ι) :
    (s.bind id name v).frames[i]? =
      if id = i then s.frames[i]?.map (·.bind name v) else s.frames[i]? :=
  Array.getElem?_modify

/-- A name is looked up in the frame first and then in the frame around it. -/
theorem lookup_of_frame {s : Store ι} {id : FrameId} {f : Frame ι} (hf : s.frames[id]? = some f)
    (name : String) :
    s.lookup id name = (f.get? name).or (f.parent.bind fun p => s.lookup p name) := by
  obtain ⟨hlt, rfl⟩ := Array.getElem?_eq_some_iff.1 hf
  rw [lookup, dif_pos hlt]
  cases s.frames[id].get? name with
  | some v => rfl
  | none =>
    split
    · rename_i h
      cases h
    · rw [Option.none_or]
      split
      · rename_i p hp
        rw [hp, Option.bind_some]
      · rename_i hp
        rw [hp, Option.bind_none]

/-- From a root its own bindings are seen. -/
theorem lookup_of_root {s : Store ι} {id : FrameId} {f : Frame ι} (hf : s.frames[id]? = some f)
    (hp : f.parent = none) (name : String) : s.lookup id name = f.get? name := by
  rw [lookup_of_frame hf, hp, Option.bind_none, Option.or_none]

theorem lookup_of_not_frame {s : Store ι} {id : FrameId} (hf : s.frames[id]? = none)
    (name : String) : s.lookup id name = none := by
  rw [lookup, dif_neg]
  exact Nat.not_lt.2 (Array.getElem?_eq_none_iff.1 hf)

/-- The frame around a frame is older. -/
theorem parent_lt_of_frame {s : Store ι} {id p : FrameId} {f : Frame ι}
    (hf : s.frames[id]? = some f) (hp : f.parent = some p) : p < id := by
  obtain ⟨hlt, rfl⟩ := Array.getElem?_eq_some_iff.1 hf
  exact s.parent_lt id hlt p hp

/-- A binding that is there already changes nothing. -/
theorem bind_eq_self {s : Store ι} {id : FrameId} {f : Frame ι} (hf : s.frames[id]? = some f)
    {name : String} {v : Value ι} (hv : f.get? name = some v) : s.bind id name v = s := by
  refine ext (Array.ext_getElem? fun i => ?_)
  rw [frames_bind]
  split
  · rename_i h
    rw [← h, hf, Option.map_some, Frame.bind_eq_self hv]
  · rfl

/-! ## Lookups in two stores -/

/-- What is seen from a frame depends on that frame and older ones. The induction goes
outward. -/
theorem lookup_congr {s t : Store ι} {id : FrameId} (h : ∀ i ≤ id, t.frames[i]? = s.frames[i]?)
    (name : String) : t.lookup id name = s.lookup id name := by
  induction id using Nat.strongRecOn with
  | ind id ih =>
    have hid := h id (Nat.le_refl id)
    rcases hf : s.frames[id]? with _ | f
    · rw [lookup_of_not_frame hf, lookup_of_not_frame (hid.trans hf)]
    · rw [lookup_of_frame hf, lookup_of_frame (hid.trans hf)]
      cases hp : f.parent with
      | none => rfl
      | some p =>
        have hlt := parent_lt_of_frame hf hp
        rw [Option.bind_some, Option.bind_some,
          ih p hlt fun i hi => h i (Nat.le_trans hi (Nat.le_of_lt hlt))]

/-- A new frame changes nothing that is seen from the frames before it. -/
theorem lookup_push_of_lt (s : Store ι) (parent : Option FrameId) {id : FrameId} (h : id < s.next)
    (name : String) : (s.push parent).lookup id name = s.lookup id name :=
  lookup_congr (fun _ hi => s.frames_push_of_lt parent (Nat.lt_of_le_of_lt hi h)) name

/-- A binding changes nothing that is seen from older frames. -/
theorem lookup_bind_of_lt (s : Store ι) {id env : FrameId} (h : id < env) (x : String)
    (v : Value ι) (name : String) : (s.bind env x v).lookup id name = s.lookup id name := by
  refine lookup_congr (fun i hi => ?_) name
  rw [frames_bind, if_neg (Nat.ne_of_gt (Nat.lt_of_le_of_lt hi h))]

/-- Seen from the frame itself, a binding changes its own name and no other. -/
theorem lookup_bind_self (s : Store ι) {env : FrameId} (h : env < s.next) (x : String)
    (v : Value ι) (name : String) :
    (s.bind env x v).lookup env name = if name = x then some v else s.lookup env name := by
  obtain ⟨f, hf⟩ : ∃ f, s.frames[env]? = some f := ⟨_, Array.getElem?_eq_getElem h⟩
  have hf' : (s.bind env x v).frames[env]? = some (f.bind x v) := by
    rw [frames_bind, if_pos rfl, hf, Option.map_some]
  have hparent : (f.parent.bind fun p => (s.bind env x v).lookup p name) =
      f.parent.bind fun p => s.lookup p name := by
    cases hp : f.parent with
    | none => rfl
    | some p => exact s.lookup_bind_of_lt (parent_lt_of_frame hf hp) x v name
  rw [lookup_of_frame hf', lookup_of_frame hf, Frame.parent_bind, hparent, Frame.get?_bind]
  split
  · rfl
  · rfl

end Store

end Monkey
