import Monkey.Proofs.Reachable
import Monkey.Proofs.Uncatchable

/-!
# Monkey — what happens in an evaluation, in order

An evaluation makes frames, binds names in them and applies `log`, and it does nothing
else to the frames and to the printed text. `Moment.Trace` lists what happens in the course
of a moment: what happens in its parts, in order, and then what the moment does itself;
where a function is applied, its frame and the bindings of its parameters come before its
body. Every evaluation that finishes has one trace, and what happened, replayed on the
state it began in, gives the state it ends in (`Evaluates.leads`). In a closed store
frames are made inside frames that are there, and names are bound in such frames.
-/

namespace Monkey

variable {ι : Type} {limit : Option Nat}

/-! ## Events -/

/-- Something that happens to the frames or to the printed text. -/
inductive Event (ι : Type) where
  /-- A frame is made, inside another one or as a root. -/
  | made (parent : Option FrameId)
  /-- A name is bound in a frame. -/
  | bound (env : FrameId) (name : String) (v : Value ι)
  /-- `log` is applied to arguments. -/
  | logged (args : List (Value ι))

/-- The state after an event. -/
def State.occur (s : State ι) : Event ι → State ι
  | .made parent => { s with store := s.store.push parent }
  | .bound env x v => s.bind env x v
  | .logged args => { s with log := s.log.println (Builtin.logLine args) }

/-- The state after events, one by one. -/
def State.after (s : State ι) (es : List (Event ι)) : State ι := es.foldl State.occur s

theorem State.after_append (s : State ι) (es es' : List (Event ι)) :
    s.after (es ++ es') = (s.after es).after es' := List.foldl_append

/-- The frames that an event is about are below a number. -/
def Event.Within (n : Nat) : Event ι → Prop
  | .made parent => ∀ p ∈ parent, p < n
  | .bound env _ _ => env < n
  | .logged _ => True

/-- Each of the events is about frames that are there when it happens. -/
def State.Allows (s : State ι) : List (Event ι) → Prop
  | [] => True
  | e :: es => e.Within s.store.next ∧ (s.occur e).Allows es

theorem State.allows_append {s : State ι} {es es' : List (Event ι)} :
    s.Allows (es ++ es') ↔ s.Allows es ∧ (s.after es).Allows es' := by
  induction es generalizing s with
  | nil => exact (iff_of_eq (true_and _)).symm
  | cons e es ih => exact (and_congr_right fun _ => ih).trans and_assoc.symm

/-- No event removes a frame. -/
theorem State.next_le_occur (s : State ι) (e : Event ι) :
    s.store.next ≤ (s.occur e).store.next := by
  cases e with
  | made parent => exact Nat.le_of_lt (Nat.lt_of_lt_of_eq (Nat.lt_succ_self _)
      (s.store.next_push parent).symm)
  | bound env x v => exact Nat.le_of_eq (s.store.next_bind env x v).symm
  | logged args => exact Nat.le_refl _

theorem State.next_le_after (s : State ι) (es : List (Event ι)) :
    s.store.next ≤ (s.after es).store.next := by
  induction es generalizing s with
  | nil => exact Nat.le_refl _
  | cons e es ih => exact Nat.le_trans (s.next_le_occur e) (ih (s.occur e))

/-- Where a frame is there, names can be bound in it. -/
theorem State.allows_bound {s : State ι} {id : FrameId} (h : id < s.store.next)
    (bs : List (String × Value ι)) : s.Allows (bs.map fun (x, v) => .bound id x v) := by
  induction bs generalizing s with
  | nil => trivial
  | cons b bs ih => exact ⟨h, ih (Nat.lt_of_lt_of_le h (s.next_le_occur _))⟩

/-- What a task does itself once it ends: a `let` that is executed binds its name, and an
application of `log` prints. -/
def Task.effect : {k : Kind} → Task ι k → Except (Interrupt ι) (k.Answer ι) → List (Event ι)
  | _, .statement env (.bind x _), .ok v => [.bound env x v]
  | _, .apply (.builtin .log) args, _ => [.logged args]
  | _, _, _ => []

/-- How many parts a task has at most. -/
def Task.parts : {k : Kind} → Task ι k → Nat
  | _, .expression _ (.binary _ _ _) | _, .expression _ (.cond _ _ _)
  | _, .expression _ (.index _ _) | _, .expressions _ _ | _, .block _ (_ :: _ :: _)
  | _, .program _ (_ :: _ :: _) => 2
  | _, .expression _ (.call _ _) => 3
  | _, _ => 1

/-- What happens before the body of a function begins: its frame is made, inside the
captured one, and its parameters are bound to the arguments there, first to last. -/
def Moment.entry : Moment ι → List (Event ι)
  | ⟨.apply (.closure f env) args, m⟩ =>
    .made (some env) :: (f.parameters.zip args).map fun (x, v) => .bound m.store.next x v
  | _ => []

/-- Bindings in one frame change the store alone. -/
theorem State.after_bound (s : State ι) (id : FrameId) (bs : List (String × Value ι)) :
    s.after (bs.map fun (x, v) => .bound id x v) =
      { s with store := bs.foldl (fun t (x, v) => t.bind id x v) s.store } := by
  induction bs generalizing s with
  | nil => rfl
  | cons b bs ih => exact ih (s.bind id b.1 b.2)

/-- The state in which a body begins is the one after the entry of its function. -/
theorem State.enter_eq_after (s : State ι) (d : Nat) (f : FnLiteral ι) (env : FrameId)
    (args : List (Value ι)) :
    s.enter f env args = s.after (Moment.entry ⟨.apply (.closure f env) args, s.machine d⟩) :=
  (State.after_bound ⟨s.store.push (some env), s.log⟩ s.store.next _).symm

/-! ## Traces -/

/-- An event with the place where it happens, seen from one step further out. -/
def Step.outside (i : Step) (a : Place × Event ι) : Place × Event ι := (i :: a.1, a.2)

/-- Events that happen at the moment itself. -/
def Event.here (es : List (Event ι)) : List (Place × Event ι) := es.map fun e => ([], e)

/-- What happens in the course of a moment, from one of its parts on: the events, in order,
each with the place where it happens. -/
inductive Moment.Trace (limit : Option Nat) : Moment ι → Nat → List (Place × Event ι) → Prop
  /-- What happens in the part, and then what happens from the next part on. -/
  | part {x y : Moment ι} {i : Nat} {L L' : List (Place × Event ι)} :
      x.Opens limit (.part i) y → Trace limit y 0 L → Trace limit x (i + 1) L' →
      Trace limit x i (L.map (Step.part i).outside ++ L')
  /-- What happens before the body of a function, and in it. -/
  | body {x y : Moment ι} {L : List (Place × Event ι)} :
      x.Opens limit .body y → Trace limit y 0 L →
      Trace limit x 0 (Event.here x.entry ++ L.map Step.body.outside)
  /-- After the last part, what the moment does itself. -/
  | own {x : Moment ι} {i : Nat} {r : Except (Interrupt ι) (x.kind.Answer ι)} {m : Machine ι} :
      x.Ends limit r m → (∀ j y, i ≤ j → ¬ x.Opens limit (.part j) y) →
      (∀ y, ¬ x.Opens limit .body y) → Trace limit x i (Event.here (x.task.effect r))

namespace Moment

variable {x y z : Moment ι}

/-- What opens a part does not open a body. -/
theorem Opens.not_body {i : Nat} (hy : x.Opens limit (.part i) y) : ¬ x.Opens limit .body z := by
  intro hz
  cases hz
  cases hy

/-- What an ended part leaves behind: no later part is opened after an interrupt. -/
theorem Opens.last_of_error {i j : Nat} {e : Interrupt ι} {m : Machine ι}
    (hy : x.Opens limit (.part i) y) (herr : y.Ends limit (.error e) m) (hlt : i < j) :
    ¬ x.Opens limit (.part j) z := by
  intro hz
  obtain ⟨v, m', hvalue⟩ := hy.earlier_ended hz hlt
  exact hvalue.not_error herr

theorem Opens.lt_parts {i : Nat} (h : x.Opens limit (.part i) y) : i < x.task.parts := by
  cases h with
  | @blockFirst _ _ ts => cases ts <;> simp [Task.parts]
  | @programFirst _ _ ts => cases ts <;> simp [Task.parts]
  | _ => simp [Task.parts]

/-- A moment has one trace at most. -/
theorem Trace.unique {i : Nat} {L L' : List (Place × Event ι)} (h : x.Trace limit i L)
    (h' : x.Trace limit i L') : L = L' := by
  induction h generalizing L' with
  | part hopens _ _ ihy ihx =>
    cases h' with
    | part hopens' hy hx =>
      obtain rfl := hopens.unique hopens'
      rw [ihy hy, ihx hx]
    | body hopens' _ => exact absurd hopens' hopens.not_body
    | own _ hlast _ => exact absurd hopens (hlast _ _ (Nat.le_refl _))
  | body hopens _ ihy =>
    cases h' with
    | part hopens' _ _ => exact absurd hopens hopens'.not_body
    | body hopens' hy =>
      obtain rfl := hopens.unique hopens'
      rw [ihy hy]
    | own _ _ hbody => exact absurd hopens (hbody _)
  | own hends hlast hbody =>
    cases h' with
    | part hopens' _ _ => exact absurd hopens' (hlast _ _ (Nat.le_refl _))
    | body hopens' _ => exact absurd hopens' (hbody _)
    | own hends' _ _ =>
      obtain ⟨rfl, -⟩ := hends.unique hends'
      rfl

end Moment

/-- From a part on, a moment leads from a state to another one, by what happens there. If
the moment is closed, and its frames are there, what happens is about frames that are
there. -/
def Moment.Leads (limit : Option Nat) (x : Moment ι) (i : Nat) (s s' : State ι) : Prop :=
  ∃ L, x.Trace limit i L ∧ s' = s.after (L.map (·.2)) ∧
    (x.Closed → x.machine.store.next ≤ s.store.next → s.Allows (L.map (·.2)))

/-- What a task does itself is about frames that are there. -/
theorem Task.Within.allows_effect {k : Kind} {t : Task ι k} {s : State ι}
    (h : t.Within s.store.next) (r : Except (Interrupt ι) (k.Answer ι)) :
    s.Allows (t.effect r) := by
  unfold Task.effect
  split
  · exact ⟨h, trivial⟩
  · exact ⟨trivial, trivial⟩
  · trivial

/-- So is what happens before the body of a function. -/
theorem Moment.Closed.allows_entry {x : Moment ι} (hx : x.Closed) {d : Nat} {s : State ι}
    (heq : x.machine = s.machine d) : s.Allows x.entry := by
  obtain ⟨t, m⟩ := x
  obtain rfl : m = s.machine d := heq
  unfold Moment.entry
  split
  · rename_i heq
    cases heq
    obtain ⟨-, hcallee, -⟩ := hx
    refine ⟨?_, State.allows_bound (s := s.occur _) ?_ _⟩
    · intro p hp
      cases hp
      exact hcallee _ List.mem_cons_self
    · change s.store.next < (s.store.push _).next
      rw [Store.next_push]
      exact Nat.lt_succ_self _
  · trivial

namespace Moment.Leads

variable {x : Moment ι} {i d : Nat} {k : Kind} {t : Task ι k} {s s₁ s' : State ι}

theorem part (hopens : x.Opens limit (.part i) ⟨t, s.machine d⟩)
    (hy : Leads limit ⟨t, s.machine d⟩ 0 s s₁) (hx : x.Leads limit (i + 1) s₁ s') :
    x.Leads limit i s s' := by
  obtain ⟨L, hL, rfl, hallows⟩ := hy
  obtain ⟨L', hL', rfl, hallows'⟩ := hx
  have hmap : (L.map (Step.part i).outside ++ L').map (·.2) = L.map (·.2) ++ L'.map (·.2) := by
    rw [List.map_append, List.map_map]
    rfl
  refine ⟨_, .part hopens hL hL', ?_, fun hx hle => ?_⟩
  · rw [hmap, State.after_append]
  · rw [hmap, State.allows_append]
    exact ⟨hallows (hopens.closed hx) (Nat.le_refl _),
      hallows' hx (Nat.le_trans hle (s.next_le_after _))⟩

theorem own {r : Except (Interrupt ι) (x.kind.Answer ι)} {m : Machine ι}
    (hends : x.Ends limit r m) (hlast : ∀ j y, i ≤ j → ¬ x.Opens limit (.part j) y)
    (hbody : ∀ y, ¬ x.Opens limit .body y) (h : s' = s.after (x.task.effect r)) :
    x.Leads limit i s s' := by
  have hmap : (Event.here (x.task.effect r)).map (·.2) = x.task.effect r := by
    rw [Event.here, List.map_map]
    exact List.map_id _
  refine ⟨_, .own hends hlast hbody, ?_, fun hx hle => ?_⟩
  · rw [hmap, h]
  · rw [hmap]
    exact (hx.task.mono hle).allows_effect r

/-- A moment that opens nothing. -/
theorem leaf {r : Except (Interrupt ι) (x.kind.Answer ι)} {m : Machine ι}
    (hends : x.Ends limit r m) (hnone : ∀ i y, ¬ x.Opens limit i y)
    (h : s' = s.after (x.task.effect r)) : x.Leads limit i s s' :=
  own hends (fun _ _ _ => hnone _ _) (fun _ => hnone _ _) h

/-- After its last part a moment does what it does itself. -/
theorem last {r : Except (Interrupt ι) (x.kind.Answer ι)} {m : Machine ι}
    (hopens : x.Opens limit (.part i) ⟨t, s.machine d⟩)
    (hy : Leads limit ⟨t, s.machine d⟩ 0 s s₁) (hends : x.Ends limit r m)
    (hlast : ∀ j z, i < j → ¬ x.Opens limit (.part j) z)
    (h : s' = s₁.after (x.task.effect r)) : x.Leads limit i s s' :=
  part hopens hy (own hends (fun j z hj => hlast j z hj) (fun _ => hopens.not_body) h)

/-- So it does after the last one that its node has. -/
theorem final {r : Except (Interrupt ι) (x.kind.Answer ι)} {m : Machine ι}
    (hopens : x.Opens limit (.part i) ⟨t, s.machine d⟩)
    (hy : Leads limit ⟨t, s.machine d⟩ 0 s s₁) (hends : x.Ends limit r m)
    (hparts : x.task.parts = i + 1) (h : s' = s₁.after (x.task.effect r)) :
    x.Leads limit i s s' :=
  last hopens hy hends (fun _ _ hlt hz => absurd hz.lt_parts (by omega)) h

/-- After an interrupt of a part a moment does nothing. -/
theorem interrupted {e : Interrupt ι} {r : Except (Interrupt ι) (x.kind.Answer ι)}
    {m m' : Machine ι} (hopens : x.Opens limit (.part i) ⟨t, s.machine d⟩)
    (hy : Leads limit ⟨t, s.machine d⟩ 0 s s')
    (herr : Ends limit ⟨t, s.machine d⟩ (.error e) m) (hends : x.Ends limit r m')
    (h : x.task.effect r = []) : x.Leads limit i s s' :=
  last hopens hy hends (fun _ _ hlt => hopens.last_of_error herr hlt) (by rw [h]; rfl)

/-- The application of a function leads where its body leads. -/
theorem body {f : FnLiteral ι} {env : FrameId} {args : List (Value ι)}
    (hlen : f.parameters.length = args.length) (had : Admits limit d)
    (h : Leads limit ⟨.block s.store.next f.body, (s.enter f env args).machine (d + 1)⟩ 0
      (s.enter f env args) s') :
    Leads limit ⟨.apply (.closure f env) args, s.machine d⟩ 0 s s' := by
  obtain ⟨L, hL, rfl, hallows⟩ := h
  have hmap (es : List (Event ι)) :
      (Event.here es ++ L.map Step.body.outside).map (·.2) = es ++ L.map (·.2) := by
    rw [List.map_append, List.map_map, Event.here, List.map_map]
    congr 1
    exact List.map_id _
  have hopens : Opens limit ⟨.apply (.closure f env) args, s.machine d⟩ .body
      ⟨.block s.store.next f.body, (s.enter f env args).machine (d + 1)⟩ := .body hlen had
  refine ⟨_, .body hopens hL, ?_, fun hx _ => ?_⟩
  · rw [hmap, State.after_append, ← s.enter_eq_after d]
  · rw [hmap, State.allows_append, ← s.enter_eq_after d]
    exact ⟨hx.allows_entry rfl, hallows (hopens.closed hx) (Nat.le_refl _)⟩

end Moment.Leads

/-! ## The trace of an evaluation that finishes -/

/-- What happens in a task that ends leads to the state in which it ends. The induction is
on the rules: in each of them the parts of the task follow one another. -/
theorem Evaluates.leads {d : Nat} {k : Kind} {t : Task ι k} {s s' : State ι}
    {r : Except (Interrupt ι) (k.Answer ι)} (h : Evaluates limit d t s r s') :
    Moment.Leads limit ⟨t, s.machine d⟩ 0 s s' := by
  have hends := h.exec
  induction h with
  | int | str | bool | fn | bound | builtin | unbound | blockNil | programNil | nil =>
    exact .leaf hends (fun _ _ => nofun) rfl
  | array h ih => exact .final .array (ih h.exec) hends rfl rfl
  | arrayInterrupt h ih => exact .interrupted .array (ih h.exec) h.exec hends rfl
  | unary h _ ih => exact .final .unary (ih h.exec) hends rfl rfl
  | unaryInterrupt h ih => exact .interrupted .unary (ih h.exec) h.exec hends rfl
  | binary hl hr _ ihl ihr =>
    refine .part .binaryLeft (ihl hl.exec) ?_
    exact .final (.binaryRight hl.exec) (ihr hr.exec) hends rfl rfl
  | binaryLeft h ih => exact .interrupted .binaryLeft (ih h.exec) h.exec hends rfl
  | binaryRight hl h ihl ih =>
    refine .part .binaryLeft (ihl hl.exec) ?_
    exact .interrupted (.binaryRight hl.exec) (ih h.exec) h.exec hends rfl
  | condInterrupt h ih => exact .interrupted .condition (ih h.exec) h.exec hends rfl
  | condYes he hv h ihe ih =>
    refine .part .condition (ihe he.exec) ?_
    exact .final (.condYes he.exec hv) (ih h.exec) hends rfl rfl
  | condNo he hv h ihe ih =>
    refine .part .condition (ihe he.exec) ?_
    exact .final (.condNo he.exec hv) (ih h.exec) hends rfl rfl
  | condNull he hv ihe =>
    -- the condition is falsy, so the branch there is is not opened
    refine .last .condition (ihe he.exec) hends (fun j z hlt hz => ?_) rfl
    cases hz with
    | condition => exact absurd hlt (Nat.lt_irrefl 0)
    | condYes he' hv' =>
      obtain ⟨heq, -⟩ := he'.unique he.exec
      cases heq
      exact hv' hv
  | call hf hes h ihf ihes ih =>
    refine .part .callee (ihf hf.exec) (.part (.arguments hf.exec) (ihes hes.exec) ?_)
    exact .final (.application hf.exec hes.exec) (ih h.exec) hends rfl rfl
  | callCallee h ih => exact .interrupted .callee (ih h.exec) h.exec hends rfl
  | callArguments hf h ihf ih =>
    refine .part .callee (ihf hf.exec) ?_
    exact .interrupted (.arguments hf.exec) (ih h.exec) h.exec hends rfl
  | index hl he _ ihl ihe =>
    refine .part .indexLeft (ihl hl.exec) ?_
    exact .final (.indexRight hl.exec) (ihe he.exec) hends rfl rfl
  | indexLeft h ih => exact .interrupted .indexLeft (ih h.exec) h.exec hends rfl
  | indexRight hl h ihl ih =>
    refine .part .indexLeft (ihl hl.exec) ?_
    exact .interrupted (.indexRight hl.exec) (ih h.exec) h.exec hends rfl
  | expr h ih => exact .final .expr (ih h.exec) hends rfl rfl
  | ret h ih => exact .final .ret (ih h.exec) hends rfl rfl
  | retInterrupt h ih => exact .interrupted .ret (ih h.exec) h.exec hends rfl
  | bind h ih => exact .final .bind (ih h.exec) hends rfl rfl
  | bindReturned h ih => exact .final .bind (ih h.exec) hends rfl rfl
  | bindError h ih => exact .interrupted .bind (ih h.exec) h.exec hends rfl
  | blockLast h ih => exact .final .blockFirst (ih h.exec) hends rfl rfl
  | blockNext ht h iht ih =>
    refine .part .blockFirst (iht ht.exec) ?_
    exact .final (.blockNext ht.exec) (ih h.exec) hends rfl rfl
  | blockInterrupt h ih => exact .interrupted .blockFirst (ih h.exec) h.exec hends rfl
  | programLast h ih => exact .final .programFirst (ih h.exec) hends rfl rfl
  | programNext ht h iht ih =>
    refine .part .programFirst (iht ht.exec) ?_
    exact .final (.programNext ht.exec) (ih h.exec) hends rfl rfl
  | programReturned h ih | programError h ih =>
    exact .interrupted .programFirst (ih h.exec) h.exec hends rfl
  | cons he h ihe ih =>
    refine .part .head (ihe he.exec) ?_
    exact .final (.tail he.exec) (ih h.exec) hends rfl rfl
  | consHead h ih => exact .interrupted .head (ih h.exec) h.exec hends rfl
  | consTail he h ihe ih =>
    refine .part .head (ihe he.exec) ?_
    exact .interrupted (.tail he.exec) (ih h.exec) h.exec hends rfl
  | applyArity hlen =>
    refine .leaf hends (fun _ _ hopens => ?_) rfl
    cases hopens with
    | body hlen' _ => exact hlen hlen'
  | applyTooDeep _ hlim hle =>
    refine .leaf hends (fun _ _ hopens => ?_) rfl
    cases hopens with
    | body _ had => exact absurd (had _ hlim) (Nat.not_lt.2 hle)
  | applyValue hlen had h ih | applyReturned hlen had h ih | applyError hlen had h ih =>
    exact .body hlen had (ih h.exec)
  | @applyBuiltin _ b =>
    refine .leaf hends (fun _ _ => nofun) ?_
    cases b <;> rfl
  | @applyOther _ callee _ _ hf hb =>
    cases callee with
    | closure => exact absurd rfl hf
    | builtin => exact absurd rfl hb
    | _ => exact .leaf hends (fun _ _ => nofun) rfl

end Monkey
