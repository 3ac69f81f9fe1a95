import Monkey.Eval.Machine

/-!
# Monkey — entering a function

The body of a function starts in a frame of its own inside the captured one,
with the parameters bound to the arguments, unless as many calls are in progress
as the limit admits.
-/

namespace Monkey

variable {ι : Type}

/-- Whether a limit lets one more call begin while `depth` are in progress. -/
def Admits (limit : Option Nat) (depth : Nat) : Prop := ∀ most, limit = some most → depth < most

/-- Binds names to values in a frame, one by one. -/
def Store.bindAll (s : Store ι) (id : FrameId) (xs : List String) (vs : List (Value ι)) : Store ι :=
  (xs.zip vs).foldl (fun s (x, v) => s.bind id x v) s

/-- The store in which the body of a function starts: it has a new frame inside
the captured one, in which the parameters are bound to the arguments. -/
def Store.enter (s : Store ι) (f : FnLiteral ι) (env : FrameId) (args : List (Value ι)) : Store ι :=
  (s.push (some env)).bindAll s.next f.parameters args

/-- Only a limit that is reached refuses a call. -/
theorem not_admits_iff {limit : Option Nat} {depth : Nat} :
    ¬ Admits limit depth ↔ ∃ most, limit = some most ∧ most ≤ depth := by
  simp [Admits]

/-! ## Frames at the start of a body -/

@[simp] theorem Store.next_bindAll (s : Store ι) (id : FrameId) (xs : List String)
    (vs : List (Value ι)) : (s.bindAll id xs vs).next = s.next := by
  rw [Store.bindAll]
  generalize xs.zip vs = bs
  induction bs generalizing s with
  | nil => rfl
  | cons b bs ih => rw [List.foldl_cons, ih, Store.next_bind]

/-- The arguments are bound in one frame alone. -/
theorem Store.frames_bindAll_of_ne (s : Store ι) {id i : FrameId} (h : id ≠ i) (xs : List String)
    (vs : List (Value ι)) : (s.bindAll id xs vs).frames[i]? = s.frames[i]? := by
  rw [Store.bindAll]
  generalize xs.zip vs = bs
  induction bs generalizing s with
  | nil => rfl
  | cons b bs ih => rw [List.foldl_cons, ih, Store.frames_bind, if_neg h]

@[simp] theorem Store.next_enter (s : Store ι) (f : FnLiteral ι) (env : FrameId)
    (args : List (Value ι)) : (s.enter f env args).next = s.next + 1 := by
  rw [Store.enter, Store.next_bindAll, Store.next_push]

/-- The start of a body leaves every frame there was alone. -/
theorem Store.frames_enter_of_lt (s : Store ι) {id : FrameId} (h : id < s.next) (f : FnLiteral ι)
    (env : FrameId) (args : List (Value ι)) :
    (s.enter f env args).frames[id]? = s.frames[id]? := by
  rw [Store.enter, Store.frames_bindAll_of_ne _ (Nat.ne_of_gt h), Store.frames_push_of_lt _ _ h]

end Monkey
