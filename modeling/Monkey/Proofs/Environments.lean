import Mathlib.Logic.Relation
import Monkey.Eval.Approximation
import Monkey.Proofs.History

/-!
# Monkey — what a host sees of its environments

A host has handles to frames. It gets one from each call that makes a frame, copies it, or
takes the one that a closure keeps. Through its handles it binds names, looks them up and
has phrases evaluated, on interpreters with whatever limit, printer and calls in progress.
The record of a host says what has happened since it began; it is no part of the program.
What a host sees follows from the record alone (`environments_refine_history`).
-/

namespace Monkey

variable {ι : Type}

/-- A handle to a frame. Its origin is the call that made the frame, told by its place in
the record: handles have one origin if they are copies, of copies, of the handle that the
call gave. -/
structure Handle where
  frame : FrameId
  origin : Nat

/-- What a host works with: the frames and its handles. The record is what has happened. -/
structure Host (ι : Type) where
  store : Store ι
  handles : List Handle
  record : History ι

namespace Host

/-- A host begins without frames. -/
def start : Host ι := ⟨.empty, [], []⟩

/-- The machine of an interpreter on the frames of the host. -/
def machine (h : Host ι) (printer : Printer) (depth : Nat) : Machine ι := ⟨h.store, printer, depth⟩

/-- What a host can do next. -/
inductive Step : Host ι → Host ι → Prop
  /-- It makes a root. -/
  | new {h : Host ι} :
      Step h ⟨h.store.push none, h.handles ++ [⟨h.store.next, h.record.length⟩],
        h.record ++ [.made none]⟩
  /-- It makes a frame inside one. -/
  | enclosed {h : Host ι} {a : Handle} : a ∈ h.handles →
      Step h ⟨h.store.push (some a.frame), h.handles ++ [⟨h.store.next, h.record.length⟩],
        h.record ++ [.made (some a.frame)]⟩
  /-- It copies a handle. -/
  | clone {h : Host ι} {a : Handle} : a ∈ h.handles →
      Step h { h with handles := h.handles ++ [a] }
  /-- It takes the handle that a closure keeps, which comes from the call that made the
  frame. -/
  | captured {h : Host ι} {id : FrameId} {place : Nat} : History.MadeAt h.record place id →
      Step h { h with handles := h.handles ++ [⟨id, place⟩] }
  /-- It binds a name, to a value whose closures keep handles to frames there are. -/
  | set {h : Host ι} {a : Handle} {x : String} {v : Value ι} : a ∈ h.handles →
      v.Within h.store.next →
      Step h { h with
        store := h.store.bind a.frame x v
        record := h.record ++ [.bound a.frame x v] }
  /-- It looks a name up, which changes nothing. -/
  | get {h : Host ι} {a : Handle} {x : String} {v : Option (Value ι)} : a ∈ h.handles →
      h.store.lookup a.frame x = v → Step h h
  /-- It has a phrase evaluated, with whatever outcome. The record has what happened in the
  evaluation. -/
  | evaluate {h : Host ι} {a : Handle} {phrase : Phrase ι} {limit : Option Nat}
      {printer : Printer} {depth : Nat} {o : Outcome ι} {m : Machine ι}
      {L : List (Place × Event ι)} : a ∈ h.handles →
      (h.machine printer depth).evaluate limit phrase a.frame = some (o, m) →
      Moment.Trace limit ⟨phrase.task a.frame, h.machine printer depth⟩ 0 L →
      Step h { h with store := m.store, record := h.record ++ L.map (·.2) }

/-- What a host can do in any number of steps. -/
abbrev Reaches : Host ι → Host ι → Prop := Relation.ReflTransGen Step

variable {h h' : Host ι}

/-- Every evaluation that finishes is a step. -/
theorem exists_step {a : Handle} (ha : a ∈ h.handles) {phrase : Phrase ι} {limit : Option Nat}
    {printer : Printer} {depth : Nat} {o : Outcome ι} {m : Machine ι}
    (hrun : (h.machine printer depth).evaluate limit phrase a.frame = some (o, m)) :
    ∃ es, h.Step { h with store := m.store, record := h.record ++ es } := by
  have hends := Machine.evaluate_eq_some_iff.1 hrun
  obtain ⟨L, hL, -⟩ := (Moment.ends_iff.1 hends).2.leads
  exact ⟨_, .evaluate ha hrun hL⟩

/-! ## What the steps preserve -/

/-- The frames of a host agree with its record, no binding leads to a frame that is not
there, and its handles come from the calls that made their frames. -/
structure Sound (h : Host ι) : Prop where
  records : h.store.Records h.record
  closed : h.store.Closed
  handles : ∀ a ∈ h.handles, History.MadeAt h.record a.origin a.frame

theorem sound_start : (start : Host ι).Sound where
  records := Store.records_empty
  closed := fun _ _ hf => nomatch hf
  handles := fun _ ha => nomatch ha

namespace Sound

theorem lt_next (hs : h.Sound) {a : Handle} (ha : a ∈ h.handles) : a.frame < h.store.next := by
  rw [hs.records.next_eq]
  exact (hs.handles a ha).lt

/-- A frame is made, and the host gets a handle. -/
theorem push (hs : h.Sound) {parent : Option FrameId} (hparent : ∀ p ∈ parent, p < h.store.next) :
    Sound ⟨h.store.push parent, h.handles ++ [⟨h.store.next, h.record.length⟩],
      h.record ++ [.made parent]⟩ where
  records := hs.records.push hparent
  closed := hs.closed.push parent
  handles a ha := by
    rcases List.mem_append.1 ha with ha | ha
    · exact (hs.handles a ha).append _
    · rw [List.mem_singleton.1 ha, hs.records.next_eq]
      exact History.madeAt_next h.record parent

/-- The host gets another handle. -/
theorem addHandle (hs : h.Sound) {a : Handle} (ha : History.MadeAt h.record a.origin a.frame) :
    Sound { h with handles := h.handles ++ [a] } where
  records := hs.records
  closed := hs.closed
  handles b hb := by
    rcases List.mem_append.1 hb with hb | hb
    · exact hs.handles b hb
    · rw [List.mem_singleton.1 hb]
      exact ha

theorem evaluate (hs : h.Sound) {a : Handle} (ha : a ∈ h.handles) {phrase : Phrase ι}
    {limit : Option Nat} {printer : Printer} {depth : Nat} {o : Outcome ι} {m : Machine ι}
    {L : List (Place × Event ι)}
    (hrun : (h.machine printer depth).evaluate limit phrase a.frame = some (o, m))
    (hL : Moment.Trace limit ⟨phrase.task a.frame, h.machine printer depth⟩ 0 L) :
    Sound { h with store := m.store, record := h.record ++ L.map (·.2) } := by
  have hends := Machine.evaluate_eq_some_iff.1 hrun
  have hframe : a.frame < h.store.next := hs.lt_next ha
  have hclosed : Moment.Closed ⟨phrase.task a.frame, h.machine printer depth⟩ := by
    refine ⟨hs.closed, ?_⟩
    cases phrase <;> exact hframe
  -- what happened leads from the frames before the evaluation to those after it
  obtain ⟨L', hL', hstate, hallows⟩ := (Moment.ends_iff.1 hends).2.leads
  obtain rfl := hL.unique hL'
  refine ⟨?_, (hends.closed hclosed).1, fun b hb => (hs.handles b hb).append _⟩
  change m.state.store.Records _
  rw [hstate]
  exact Store.Records.after hs.records (hallows hclosed (Nat.le_refl _))

/-- Every step preserves it. -/
theorem step (hs : h.Sound) (hstep : h.Step h') : h'.Sound := by
  cases hstep with
  | new => exact hs.push nofun
  | enclosed ha =>
    refine hs.push fun p hp => ?_
    cases hp
    exact hs.lt_next ha
  | clone ha => exact hs.addHandle (hs.handles _ ha)
  | captured hmade => exact hs.addHandle hmade
  | set ha hv =>
    exact ⟨hs.records.bind (hs.lt_next ha) _ _,
      hs.closed.bind _ _ hv,
      fun b hb => (hs.handles b hb).append _⟩
  | get _ _ => exact hs
  | evaluate ha hrun hL => exact hs.evaluate ha hrun hL

theorem reaches (hs : h.Sound) (hreach : h.Reaches h') : h'.Sound := by
  induction hreach with
  | refl => exact hs
  | tail _ hstep ih => exact ih.step hstep

end Sound

/-- The record only grows. -/
theorem Step.record_prefix (hstep : h.Step h') : h.record <+: h'.record := by
  cases hstep with
  | new | enclosed _ | set _ _ | evaluate _ _ _ => exact List.prefix_append _ _
  | clone _ | captured _ | get _ _ => exact List.prefix_rfl

theorem Reaches.record_prefix (hreach : h.Reaches h') : h.record <+: h'.record := by
  induction hreach with
  | refl => exact List.prefix_rfl
  | tail _ hstep ih => exact ih.trans hstep.record_prefix

/-! ## What the host sees -/

/-- What a host sees is what its record says. -/
structure Faithful (h : Host ι) : Prop where
  /-- Around a frame is the frame that it was made in. -/
  parents : ∀ id : FrameId, h.store.frames[id]?.map Frame.parent = (History.parents h.record)[id]?
  /-- Outward from a frame there is one chain of frames, up to a root; it is finite and
  visits no frame twice. -/
  chains : ∀ id < h.store.next, ∃ ids : List FrameId, ids.Nodup ∧
    ∀ ids', History.Chain h.record id ids' ↔ ids' = ids
  /-- A name has the value that was bound to it last in the first frame of the chain in which
  it was ever bound. -/
  lookups : ∀ id ids, History.Chain h.record id ids → ∀ x,
    h.store.lookup id x = ids.findSome? fun i => (History.written h.record i x).getLast?
  /-- Handles lead to frames that are there. -/
  handles : ∀ a ∈ h.handles, a.frame < h.store.next
  /-- Two handles lead to one frame exactly when they come from one call. -/
  shared : ∀ a ∈ h.handles, ∀ b ∈ h.handles, a.frame = b.frame ↔ a.origin = b.origin
  /-- The listing of a frame has the names that were ever bound in it, each once, in byte
  order, and says whether a frame is around it. -/
  listings : ∀ id < h.store.next, ∃ (names : List String) (parent : Option FrameId),
    names.Pairwise (fun x y => Text.bytes x < Text.bytes y) ∧
    (∀ x, x ∈ names ↔ History.written h.record id x ≠ []) ∧
    (History.parents h.record)[id]? = some parent ∧
    h.store.listing id = some ("Environment \x7b names: [" ++
      ", ".intercalate (names.map Text.quote) ++ "], has_parent: " ++
      toString parent.isSome ++ " \x7d")

/-- What a host that has gone on sees, compared with what it saw. -/
structure Continues (h h' : Host ι) (later : History ι) : Prop where
  record_eq : h'.record = h.record ++ later
  /-- Around a frame is the frame that was around it. -/
  parents : ∀ id < h.store.next,
    h'.store.frames[id]?.map Frame.parent = h.store.frames[id]?.map Frame.parent
  /-- Names that were bound in a frame are bound in it. -/
  bound : ∀ (id : FrameId) (x : String) (v : Value ι),
    h.store.frames[id]?.bind (·.get? x) = some v →
    ∃ w, h'.store.frames[id]?.bind (·.get? x) = some w
  /-- What is seen of a name from a frame is as it was, unless it was bound in a frame of the
  chain. -/
  unseen : ∀ id ids, History.Chain h.record id ids →
    ∀ x, (∀ i ∈ ids, History.written later i x = []) →
      h'.store.lookup id x = h.store.lookup id x

theorem Sound.faithful (hs : h.Sound) : h.Faithful where
  parents := hs.records.parent_eq
  chains id hid := ⟨h.store.chain id, h.store.chain_nodup id, fun _ => hs.records.chain_iff hid⟩
  lookups id ids hchain x := by
    have hid : id < h.store.next := hs.records.next_eq ▸ hchain.lt
    rw [(hs.records.chain_iff hid).1 hchain]
    exact hs.records.lookup_eq id x
  handles a ha := hs.lt_next ha
  shared a ha b hb := by
    constructor
    · intro hframe
      exact (hs.handles a ha).unique (hframe ▸ hs.handles b hb)
    · intro horigin
      rw [(hs.handles a ha).frame_eq, (hs.handles b hb).frame_eq, horigin]
  listings id hid := hs.records.exists_listing hid

theorem Sound.continues (hs : h.Sound) (hs' : h'.Sound) {later : History ι}
    (hrecord : h'.record = h.record ++ later) : h.Continues h' later where
  record_eq := hrecord
  parents id hid := by
    rw [hs.records.parent_eq, hs'.records.parent_eq, hrecord,
      History.parents_getElem?_append _ _ (hs.records.next_eq ▸ hid)]
  bound id x v hv := by
    rw [hs.records.get?_eq] at hv
    rw [hs'.records.get?_eq, hrecord, History.written_append, List.getLast?_append, hv]
    cases (History.written later id x).getLast? with
    | none => exact ⟨v, rfl⟩
    | some w => exact ⟨w, rfl⟩
  unseen id ids hchain x hunwritten := by
    have hchain' := hchain.append later
    rw [← hrecord] at hchain'
    rw [hs.faithful.lookups id ids hchain, hs'.faithful.lookups id ids hchain']
    rw [← List.head?_filterMap, ← List.head?_filterMap]
    congr 1
    refine List.filterMap_congr fun i hi => ?_
    rw [hrecord, History.written_append, hunwritten i hi, List.append_nil]

/-- **Environments refine a history.** Whatever a host does, in any order and with any of its
handles, what it sees of its environments is what its record says; and when it goes on,
frames stay where they are, names stay bound, and writes are seen along the chain outward
alone. No evaluation is left out: each one that finishes is a step. -/
theorem environments_refine_history (hreach : (start : Host ι).Reaches h) :
    h.Faithful ∧
    (∀ h', h.Reaches h' → ∃ later, h.Continues h' later) ∧
    ∀ a ∈ h.handles, ∀ phrase limit printer depth o m,
      (h.machine printer depth).evaluate limit phrase a.frame = some (o, m) →
      ∃ es, h.Step { h with store := m.store, record := h.record ++ es } := by
  have hs := sound_start.reaches hreach
  refine ⟨hs.faithful, fun h' hreach' => ?_, fun a ha _ _ _ _ _ _ hrun => exists_step ha hrun⟩
  obtain ⟨later, hlater⟩ := hreach'.record_prefix
  exact ⟨later, hs.continues (hs.reaches hreach') hlater.symm⟩

attribute [local semireducible] Store.lookup

/-- A root, a frame inside it and a copy of the first handle; a program in the inner frame,
which binds a function there that keeps that frame and, when it is called, binds another
name in its own; and then that name bound in the root, through the copy. It is seen from the
inner frame. -/
theorem environments_refine_history_through_a_cycle :
    ∃ h : Host Unit, start.Reaches h ∧ h.handles = [⟨0, 0⟩, ⟨1, 1⟩, ⟨0, 0⟩] ∧
      h.store.lookup 1 "late" = some (.int 7) ∧
      (h.store.lookup 1 "f").map Value.captured = some [1] ∧
      h.Faithful ∧ (∀ h', h.Reaches h' → ∃ later, h.Continues h' later) ∧
      ∀ a ∈ h.handles, ∀ phrase limit printer depth o m,
        (h.machine printer depth).evaluate limit phrase a.frame = some (o, m) →
        ∃ es, h.Step { h with store := m.store, record := h.record ++ es } := by
  let f : FnLiteral Unit := ⟨(), [], [.bind "late" (.ident "f")]⟩
  let p : Program Unit := ⟨[.bind "f" (.fn f), .expr (.call (.ident "f") [])]⟩
  let h₁ : Host Unit := ⟨Store.empty.push none, [⟨0, 0⟩], [.made none]⟩
  let h₂ : Host Unit :=
    ⟨h₁.store.push (some 0), [⟨0, 0⟩, ⟨1, 1⟩], [.made none, .made (some 0)]⟩
  let h : Host Unit := { h₂ with handles := [⟨0, 0⟩, ⟨1, 1⟩, ⟨0, 0⟩] }
  have hnew : start.Step h₁ := .new
  have henclosed : h₁.Step h₂ := .enclosed (a := ⟨0, 0⟩) List.mem_cons_self
  have hclone : h₂.Step h := .clone (a := ⟨0, 0⟩) List.mem_cons_self
  have hmade : start.Reaches h := ((Relation.ReflTransGen.single hnew).tail henclosed).tail hclone
  have hrun : ((h.machine .silent 0).evaluate (some 2) (.program p) 1).map
      (fun r => (r.2.store.frames[0]?, r.2.store.frames[1]?)) =
      some (some (Frame.empty none), some ⟨[("f", .closure f 1)], some 0⟩) :=
    Machine.map_evaluate_of_nested 1 rfl
  obtain ⟨⟨o, m⟩, hm, heq⟩ := Option.map_eq_some_iff.1 hrun
  obtain ⟨hroot, hinner⟩ := Prod.mk.inj heq
  let s : Store Unit := m.store.bind 0 "late" (.int 7)
  have hroot' : s.frames[0]? = some ((Frame.empty none).bind "late" (.int 7)) := by
    rw [Store.frames_bind, if_pos rfl, hroot]
    rfl
  have hinner' : s.frames[1]? = some ⟨[("f", .closure f 1)], some 0⟩ := by
    rw [Store.frames_bind, if_neg Nat.zero_ne_one, hinner]
  have hlate : s.lookup 1 "late" = some (.int 7) := by
    rw [Store.lookup_of_frame hinner']
    exact Store.lookup_of_frame hroot' "late"
  have hf : (s.lookup 1 "f").map Value.captured = some [1] := by
    rw [Store.lookup_of_frame hinner']
    rfl
  obtain ⟨es, hstep⟩ := exists_step (a := ⟨1, 1⟩) (by simp [h]) hm
  have hseven : Value.Within m.store.next (.int 7 : Value Unit) := by
    intro id hid
    cases hid
  have hset := Step.set (x := "late") (a := ⟨0, 0⟩)
    (h := { h with store := m.store, record := h.record ++ es }) List.mem_cons_self hseven
  have hreach := (hmade.tail hstep).tail hset
  exact ⟨_, hreach, rfl, hlate, hf, environments_refine_history hreach⟩

end Host

end Monkey
