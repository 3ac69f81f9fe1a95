import Mathlib.Data.List.Nodup
import Mathlib.Data.String.Basic
import Mathlib.Order.Lattice
import Monkey.Proofs.Chains
import Monkey.Proofs.Trace
import Monkey.Text.ByteOrder

/-!
# Monkey — environments and their history

A host makes frames, holds handles to them, copies these, binds names, looks names up and
has phrases evaluated, in any order. What it can see of the frames is settled by what has
happened: in which frame each frame was made, and what was bound in it to which name. The
store agrees with the history after every event (`Store.Records.occur`), so it agrees after
every evaluation, by what happens in it, and after every step of the host
(`Host.Sound.step`).
-/

namespace Monkey

variable {ι : Type}

/-! ## Histories -/

/-- What has happened so far, first to last. -/
abbrev History (ι : Type) := List (Event ι)

/-- The frame around the one that is made, if a frame is made. -/
def Event.made? : Event ι → Option (Option FrameId)
  | .made parent => some parent
  | _ => none

/-- The value that a name in a frame is bound to, if it is bound. -/
def Event.written? (id : FrameId) (x : String) : Event ι → Option (Value ι)
  | .bound env y v => if env = id ∧ y = x then some v else none
  | _ => none

namespace History

variable {es : History ι} {id : FrameId}

/-- The frames made so far, in the order of their numbers: around each of them, the frame
that it was made in. -/
def parents (es : History ι) : List (Option FrameId) := es.filterMap Event.made?

/-- The values that were bound to a name in a frame, first to last. -/
def written (es : History ι) (id : FrameId) (x : String) : List (Value ι) :=
  es.filterMap (Event.written? id x)

@[simp] theorem parents_append (es es' : History ι) :
    parents (es ++ es') = parents es ++ parents es' := List.filterMap_append

@[simp] theorem written_append (es es' : History ι) (id : FrameId) (x : String) :
    written (es ++ es') id x = written es id x ++ written es' id x := List.filterMap_append

@[simp] theorem parents_made (parent : Option FrameId) :
    parents [(.made parent : Event ι)] = [parent] := rfl

@[simp] theorem parents_bound (env : FrameId) (y : String) (v : Value ι) :
    parents [.bound env y v] = [] := rfl

@[simp] theorem parents_logged (args : List (Value ι)) : parents [.logged args] = [] := rfl

@[simp] theorem written_made (parent : Option FrameId) (id : FrameId) (x : String) :
    written [(.made parent : Event ι)] id x = [] := rfl

@[simp] theorem written_logged (args : List (Value ι)) (id : FrameId) (x : String) :
    written [.logged args] id x = [] := rfl

/-- A binding is written in one frame, under one name. -/
theorem written_bound (env id : FrameId) (y x : String) (v : Value ι) :
    written [.bound env y v] id x = if env = id ∧ y = x then [v] else [] := by
  unfold written
  rw [List.filterMap_cons, Event.written?]
  split
  · rename_i h
    split at h
    · cases h
    · rw [if_neg ‹_›]
      rfl
  · rename_i h
    split at h
    · cases h
      rw [if_pos ‹_›]
      rfl
    · cases h

/-- The frames from one outward, as they were made inside each other, up to a root. -/
inductive Chain (es : History ι) : FrameId → List FrameId → Prop
  | root {id : FrameId} : (parents es)[id]? = some none → Chain es id [id]
  | inside {id p : FrameId} {ids : List FrameId} :
      (parents es)[id]? = some (some p) → Chain es p ids → Chain es id (id :: ids)

/-- The event at a place of the history makes the frame of that number. -/
structure MadeAt (es : History ι) (place : Nat) (id : FrameId) : Prop where
  event : ∃ parent, es[place]? = some (.made parent)
  frame_eq : id = (parents (es.take place)).length

/-- What was recorded of a frame stays. -/
theorem parents_getElem?_append (es es' : History ι) (h : id < (parents es).length) :
    (parents (es ++ es'))[id]? = (parents es)[id]? := by
  rw [parents_append, List.getElem?_append_left h]

/-- A chain of frames is one of frames that have been made. -/
theorem Chain.lt {ids : List FrameId} (h : Chain es id ids) : id < (parents es).length := by
  cases h with
  | root hroot => exact (List.getElem?_eq_some_iff.1 hroot).1
  | inside hp _ => exact (List.getElem?_eq_some_iff.1 hp).1

/-- The chain of a frame stays. -/
theorem Chain.append {ids : List FrameId} (h : Chain es id ids) (es' : History ι) :
    Chain (es ++ es') id ids := by
  induction h with
  | root hroot =>
    refine .root ?_
    rw [parents_getElem?_append _ _ (List.getElem?_eq_some_iff.1 hroot).1, hroot]
  | inside hp _ ih =>
    refine .inside ?_ ih
    rw [parents_getElem?_append _ _ (List.getElem?_eq_some_iff.1 hp).1, hp]

/-- What happens next, when it makes a frame, makes the next one. -/
theorem madeAt_next (es : History ι) (parent : Option FrameId) :
    MadeAt (es ++ [.made parent]) es.length (parents es).length where
  event := ⟨parent, List.getElem?_concat_length⟩
  frame_eq := by rw [List.take_left]

namespace MadeAt

variable {place place' : Nat}

theorem lt_length (h : MadeAt es place id) : place < es.length := by
  obtain ⟨parent, hevent⟩ := h.event
  exact (List.getElem?_eq_some_iff.1 hevent).1

theorem append (h : MadeAt es place id) (es' : History ι) : MadeAt (es ++ es') place id where
  event := by
    rw [List.getElem?_append_left h.lt_length]
    exact h.event
  frame_eq := by
    rw [List.take_append_of_le_length (Nat.le_of_lt h.lt_length)]
    exact h.frame_eq

/-- Later the frame is there. -/
theorem lt_of_lt (h : MadeAt es place id) (hlt : place < place') :
    id < (parents (es.take place')).length := by
  obtain ⟨⟨parent, hevent⟩, rfl⟩ := h
  have hle : es.take (place + 1) <+: es.take place' := List.take_prefix_take_left hlt
  have hsub := (hle.sublist.filterMap Event.made?).length_le
  rw [List.take_add_one, hevent] at hsub
  change (parents (es.take place ++ [.made parent])).length ≤ (parents (es.take place')).length
    at hsub
  rw [parents_append, List.length_append] at hsub
  exact hsub

theorem lt (h : MadeAt es place id) : id < (parents es).length := by
  have hlt := h.lt_of_lt h.lt_length
  rwa [List.take_length] at hlt

/-- No frame is made twice. -/
theorem unique (h : MadeAt es place id) (h' : MadeAt es place' id) : place = place' := by
  rcases Nat.lt_trichotomy place place' with hlt | heq | hgt
  · exact absurd (h'.frame_eq ▸ h.lt_of_lt hlt) (Nat.lt_irrefl _)
  · exact heq
  · exact absurd (h.frame_eq ▸ h'.lt_of_lt hgt) (Nat.lt_irrefl _)

end MadeAt

end History

/-! ## Frames and their names -/

namespace Frame

/-- A name that is bound again keeps its place among the names. -/
theorem map_fst_rebind (name : String) (v : Value ι) (bs : List (String × Value ι)) :
    (rebind name v bs).map (·.1) =
      if name ∈ bs.map (·.1) then bs.map (·.1) else bs.map (·.1) ++ [name] := by
  induction bs with
  | nil => rfl
  | cons b bs ih =>
    rw [rebind]
    split
    · rename_i h
      rw [if_pos (h ▸ List.mem_cons_self)]
      rfl
    · rename_i h
      rw [List.map_cons, ih, List.map_cons]
      by_cases hmem : name ∈ bs.map (·.1)
      · rw [if_pos hmem, if_pos (List.mem_cons_of_mem _ hmem)]
      · have hcons : name ∉ b.1 :: bs.map (·.1) := fun hcons => (List.mem_cons.1 hcons).elim h hmem
        rw [if_neg hmem, if_neg hcons, List.cons_append]

/-- A name is bound once in a frame, also when it is bound again. -/
theorem nodup_rebind {name : String} {v : Value ι} {bs : List (String × Value ι)}
    (h : (bs.map (·.1)).Nodup) : ((rebind name v bs).map (·.1)).Nodup := by
  rw [map_fst_rebind]
  split
  · exact h
  · exact List.Nodup.append h (List.nodup_singleton name) (List.disjoint_singleton.2 ‹_›)

/-- The names that are listed are the ones that are bound. -/
theorem mem_names {f : Frame ι} {x : String} : x ∈ f.names ↔ f.get? x ≠ none := by
  rw [names, List.mem_mergeSort, List.mem_map, get?, Ne, List.lookup_eq_none_iff]
  constructor
  · rintro ⟨b, hb, rfl⟩ hnone
    exact absurd (hnone b hb) (by simp)
  · intro h
    by_contra hmem
    refine h fun b hb => ?_
    have hne : b.1 ≠ x := fun heq => hmem ⟨b, hb, heq⟩
    simp [hne.symm]

/-- They are listed in byte order, each once. -/
theorem names_pairwise {f : Frame ι} (h : (f.bindings.map (·.1)).Nodup) :
    f.names.Pairwise fun x y => Text.bytes x < Text.bytes y := by
  have hsorted : f.names.Pairwise fun x y => !decide (y < x) := by
    refine List.pairwise_mergeSort (fun x y z hxy hyz => ?_) (fun x y => ?_) _
    · simp only [Bool.not_eq_true', decide_eq_false_iff_not, not_lt] at hxy hyz ⊢
      exact le_trans hxy hyz
    · simp only [Bool.or_eq_true, Bool.not_eq_true', decide_eq_false_iff_not, not_lt]
      exact le_total x y
  have hnodup : f.names.Nodup := (List.mergeSort_perm _ _).nodup_iff.2 h
  refine (hsorted.and hnodup).imp fun {x y} hxy => ?_
  obtain ⟨hle, hne⟩ := hxy
  simp only [Bool.not_eq_true', decide_eq_false_iff_not, not_lt] at hle
  exact Text.bytes_lt_bytes_iff.2 (lt_of_le_of_ne hle hne)

end Frame

namespace Store

variable {s : Store ι} {id : FrameId}

theorem frames_next (s : Store ι) : s.frames[s.next]? = none :=
  Array.getElem?_eq_none (Nat.le_refl _)

/-! ## Stores that agree with a history -/

open History

/-- The store has the frames that were made, where they were made, and in each of them a
name has the value that was bound to it last. -/
structure Records (s : Store ι) (es : History ι) : Prop where
  parent_eq : ∀ id : FrameId, s.frames[id]?.map Frame.parent = (parents es)[id]?
  get?_eq : ∀ (id : FrameId) (x : String),
    s.frames[id]?.bind (·.get? x) = (written es id x).getLast?
  nodup : ∀ (id : FrameId) (f : Frame ι), s.frames[id]? = some f → (f.bindings.map (·.1)).Nodup

theorem records_empty : (empty : Store ι).Records [] where
  parent_eq _ := rfl
  get?_eq _ _ := rfl
  nodup _ _ h := nomatch h

namespace Records

variable {es : History ι}

theorem next_eq (h : s.Records es) : s.next = (parents es).length := by
  refine Nat.le_antisymm (Nat.le_of_not_lt fun hlt => ?_) (Nat.le_of_not_lt fun hlt => ?_)
  · have hparent := h.parent_eq (parents es).length
    rw [List.getElem?_eq_none (Nat.le_refl _), Array.getElem?_eq_getElem hlt] at hparent
    cases hparent
  · have hparent := h.parent_eq s.next
    rw [List.getElem?_eq_getElem hlt, s.frames_next] at hparent
    cases hparent

/-- A frame is made. -/
theorem push (h : s.Records es) {parent : Option FrameId} (hparent : ∀ p ∈ parent, p < s.next) :
    (s.push parent).Records (es ++ [.made parent]) := by
  have hfilter : parent.filter (· < s.next) = parent := by
    cases parent with
    | none => rfl
    | some p => exact Option.filter_some_eq_some.2 (decide_eq_true (hparent p rfl))
  refine ⟨fun id => ?_, fun id x => ?_, fun id f hf => ?_⟩
  · rw [frames_push, hfilter, parents_append, parents_made]
    split
    · rename_i hid
      rw [hid, h.next_eq, List.getElem?_concat_length]
      rfl
    · rename_i hid
      rw [h.parent_eq, List.getElem?_append]
      split
      · rfl
      · rename_i hge
        have hle : (parents es).length ≤ id := Nat.le_of_not_lt hge
        have hlt : (parents es).length < id := Nat.lt_of_le_of_ne hle (h.next_eq ▸ Ne.symm hid)
        have hlength : [parent].length ≤ id - (parents es).length := Nat.sub_pos_of_lt hlt
        rw [List.getElem?_eq_none hle, List.getElem?_eq_none hlength]
  · rw [frames_push, written_append, written_made, List.append_nil, ← h.get?_eq]
    split
    · rename_i hid
      rw [hid, s.frames_next]
      rfl
    · rfl
  · rw [frames_push] at hf
    split at hf
    · cases hf
      exact List.nodup_nil
    · exact h.nodup id f hf

/-- A name is bound. -/
theorem bind (h : s.Records es) {env : FrameId} (henv : env < s.next) (y : String)
    (v : Value ι) : (s.bind env y v).Records (es ++ [.bound env y v]) := by
  refine ⟨fun id => ?_, fun id x => ?_, fun id f hf => ?_⟩
  · rw [frames_bind, parents_append, parents_bound, List.append_nil, ← h.parent_eq]
    split
    · rw [Option.map_map]
      rfl
    · rfl
  · rw [frames_bind, written_append, written_bound]
    by_cases hid : env = id
    · subst hid
      have hrecords := h.get?_eq env x
      rw [Array.getElem?_eq_getElem henv] at hrecords ⊢
      rw [if_pos rfl]
      change (Frame.bind _ y v).get? x = _
      rw [Frame.get?_bind]
      by_cases hx : x = y
      · rw [if_pos hx, if_pos ⟨rfl, hx.symm⟩, List.getLast?_concat]
      · rw [if_neg hx, if_neg fun hand => hx hand.2.symm, List.append_nil]
        exact hrecords
    · rw [if_neg hid, if_neg fun hand => hid hand.1, List.append_nil]
      exact h.get?_eq id x
  · rw [frames_bind] at hf
    split at hf
    · obtain ⟨g, hg, rfl⟩ := Option.map_eq_some_iff.1 hf
      exact Frame.nodup_rebind (h.nodup id g hg)
    · exact h.nodup id f hf

/-- The chain of a frame is the one that was recorded. -/
theorem chain_iff (h : s.Records es) (hid : id < s.next) {ids : List FrameId} :
    Chain es id ids ↔ ids = s.chain id := by
  constructor
  · intro hchain
    induction hchain with
    | @root id hroot =>
      obtain ⟨f, hf, hp⟩ := Option.map_eq_some_iff.1 ((h.parent_eq id).trans hroot)
      exact (chain_of_root hf hp).symm
    | @inside id p ids hinside _ ih =>
      obtain ⟨f, hf, hp⟩ := Option.map_eq_some_iff.1 ((h.parent_eq id).trans hinside)
      rw [chain_of_inside hf hp, ih (Nat.lt_trans (parent_lt_of_frame hf hp) hid)]
  · rintro rfl
    induction id using Nat.strongRecOn with
    | ind id ih =>
      have hf : s.frames[id]? = some s.frames[id] := Array.getElem?_eq_getElem hid
      have hparent := h.parent_eq id
      rw [hf, Option.map_some] at hparent
      cases hp : s.frames[id].parent with
      | none =>
        rw [chain_of_root hf hp]
        exact .root (hparent.symm.trans (congrArg some hp))
      | some p =>
        have hlt := parent_lt_of_frame hf hp
        rw [chain_of_inside hf hp]
        exact .inside (hparent.symm.trans (congrArg some hp)) (ih p hlt (Nat.lt_trans hlt hid))

/-- A name has the value that was bound to it last in the first frame of the chain in
which it was ever bound. -/
theorem lookup_eq (h : s.Records es) (id : FrameId) (x : String) :
    s.lookup id x = (s.chain id).findSome? fun i => (written es i x).getLast? := by
  rw [lookup_eq_chain]
  simp only [h.get?_eq]

/-- The listing of a frame is that of the names ever bound in it. -/
theorem exists_listing (h : s.Records es) (hid : id < s.next) :
    ∃ (names : List String) (parent : Option FrameId),
      names.Pairwise (fun x y => Text.bytes x < Text.bytes y) ∧
      (∀ x, x ∈ names ↔ written es id x ≠ []) ∧ (parents es)[id]? = some parent ∧
      s.listing id = some ("Environment \x7b names: [" ++
        ", ".intercalate (names.map Text.quote) ++ "], has_parent: " ++
        toString parent.isSome ++ " \x7d") := by
  have hf : s.frames[id]? = some s.frames[id] := Array.getElem?_eq_getElem hid
  refine ⟨s.frames[id].names, s.frames[id].parent, Frame.names_pairwise (h.nodup id _ hf),
    fun x => ?_, ?_, ?_⟩
  · have hget := h.get?_eq id x
    rw [hf, Option.bind_some] at hget
    rw [Frame.mem_names, hget, Ne, List.getLast?_eq_none_iff]
  · rw [← h.parent_eq, hf]
    rfl
  · rw [listing, hf]
    rfl

end Records

end Store

/-- The store agrees with the history after an event. -/
theorem Store.Records.occur {s : State ι} {es : History ι} (h : s.store.Records es)
    {e : Event ι} (he : e.Within s.store.next) : (s.occur e).store.Records (es ++ [e]) := by
  cases e with
  | made parent => exact h.push he
  | bound env x v => exact h.bind he x v
  | logged args =>
    refine ⟨fun id => ?_, fun id x => ?_, h.nodup⟩
    · rw [History.parents_append, History.parents_logged, List.append_nil]
      exact h.parent_eq id
    · rw [History.written_append, History.written_logged, List.append_nil]
      exact h.get?_eq id x

/-- So it does after many. -/
theorem Store.Records.after {s : State ι} {es es' : History ι} (h : s.store.Records es)
    (hallows : s.Allows es') : (s.after es').store.Records (es ++ es') := by
  induction es' generalizing s es with
  | nil => rwa [List.append_nil]
  | cons e es' ih =>
    obtain ⟨he, hrest⟩ := hallows
    rw [List.append_cons]
    exact ih (h.occur he) hrest

end Monkey
