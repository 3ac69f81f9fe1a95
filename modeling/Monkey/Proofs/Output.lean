import Mathlib.Data.List.Basic
import Monkey.Eval.Approximation
import Monkey.Proofs.Trace
import Monkey.Proofs.Unread

/-!
# Monkey — printed text, and what it comes from

Where printed lines go has no influence on an evaluation: on another printer it opens the
same moments in the same order (`Moment.Trace.on`). So the text of a run is told by the run
alone. It has one line for each application of `log`, in the order in which they come about:
every application is in the trace, at its place (`Moment.Course.mem_logs`), and later places
come later (`Moment.Trace.logs_pairwise`).
-/

namespace Monkey

variable {ι : Type} {limit : Option Nat}

/-! ## Other printers -/

/-- The moment on another printer. -/
def Moment.on (x : Moment ι) (p : Printer) : Moment ι := ⟨x.task, { x.machine with printer := p }⟩

namespace Moment

variable {x y : Moment ι}

/-- On another printer a moment ends alike, and prints the same text. -/
theorem Ends.on {r : Except (Interrupt ι) (x.kind.Answer ι)} {m : Machine ι}
    (h : x.Ends limit r m) :
    ∃ text, ∀ p : Printer, (x.on p).Ends limit r { m with printer := p.append text } :=
  x.task.eval_rel limit limit EvalM.Unread.compatible (call_unread limit) x.machine r m h

/-- On another printer a moment opens what it opens. -/
theorem Opens.on {i : Step} (h : x.Opens limit i y) (p : Printer) :
    ∃ q, (x.on p).Opens limit i (y.on q) := by
  cases h with
  | array => exact ⟨p, .array⟩
  | unary => exact ⟨p, .unary⟩
  | binaryLeft => exact ⟨p, .binaryLeft⟩
  | binaryRight hl =>
    obtain ⟨text, hl⟩ := hl.on
    exact ⟨p.append text, .binaryRight (hl p)⟩
  | condition => exact ⟨p, .condition⟩
  | condYes he hv =>
    obtain ⟨text, he⟩ := he.on
    exact ⟨p.append text, .condYes (he p) hv⟩
  | condNo he hv =>
    obtain ⟨text, he⟩ := he.on
    exact ⟨p.append text, .condNo (he p) hv⟩
  | callee => exact ⟨p, .callee⟩
  | arguments hf =>
    obtain ⟨text, hf⟩ := hf.on
    exact ⟨p.append text, .arguments (hf p)⟩
  | application hf hes =>
    obtain ⟨text, hf⟩ := hf.on
    obtain ⟨text', hes⟩ := hes.on
    exact ⟨(p.append text).append text', .application (hf p) (hes _)⟩
  | indexLeft => exact ⟨p, .indexLeft⟩
  | indexRight hl =>
    obtain ⟨text, hl⟩ := hl.on
    exact ⟨p.append text, .indexRight (hl p)⟩
  | head => exact ⟨p, .head⟩
  | tail he =>
    obtain ⟨text, he⟩ := he.on
    exact ⟨p.append text, .tail (he p)⟩
  | expr => exact ⟨p, .expr⟩
  | ret => exact ⟨p, .ret⟩
  | bind => exact ⟨p, .bind⟩
  | blockFirst => exact ⟨p, .blockFirst⟩
  | blockNext ht =>
    obtain ⟨text, ht⟩ := ht.on
    exact ⟨p.append text, .blockNext (ht p)⟩
  | programFirst => exact ⟨p, .programFirst⟩
  | programNext ht =>
    obtain ⟨text, ht⟩ := ht.on
    exact ⟨p.append text, .programNext (ht p)⟩
  | body hlen had => exact ⟨p, .body hlen had⟩

theorem entry_on (x : Moment ι) (p : Printer) : (x.on p).entry = x.entry := by
  obtain ⟨t, m⟩ := x
  unfold Moment.entry Moment.on
  cases t with
  | apply callee args => cases callee <;> rfl
  | _ => rfl

/-- On another printer the same happens, at the same places. -/
theorem Trace.on {i : Nat} {L : List (Place × Event ι)} (h : x.Trace limit i L) (p : Printer) :
    (x.on p).Trace limit i L := by
  induction h generalizing p with
  | part hopens _ _ ihy ihx =>
    obtain ⟨q, hq⟩ := hopens.on p
    exact .part hq (ihy q) (ihx p)
  | @body x _ _ hopens _ ihy =>
    obtain ⟨q, hq⟩ := hopens.on p
    rw [← x.entry_on p]
    exact .body hq (ihy q)
  | @own x _ r _ hends hlast hbody =>
    obtain ⟨text, hends⟩ := hends.on
    refine .own (hends p) (fun j y hj hy => ?_) (fun y hy => ?_)
    · obtain ⟨q, hq⟩ := hy.on x.machine.printer
      exact hlast j _ hj hq
    · obtain ⟨q, hq⟩ := hy.on x.machine.printer
      exact hbody _ hq

end Moment

/-! ## The applications of `log` -/

/-- The application of `log` that an event is, if it is one. -/
def Event.log? : Event ι → Option (List (Value ι))
  | .logged args => some args
  | _ => none

/-- The applications of `log` among what happens, each with its place. -/
def Event.logs (L : List (Place × Event ι)) : List (Place × List (Value ι)) :=
  L.filterMap fun a => a.2.log?.map (a.1, ·)

theorem Event.mem_logs {L : List (Place × Event ι)} {p : Place} {args : List (Value ι)} :
    (p, args) ∈ Event.logs L ↔ (p, .logged args) ∈ L := by
  rw [Event.logs, List.mem_filterMap]
  constructor
  · rintro ⟨⟨q, e⟩, ha, h⟩
    cases e with
    | logged vs =>
      cases h
      exact ha
    | _ => cases h
  · exact fun h => ⟨_, h, rfl⟩

theorem Event.logs_outside (i : Step) (L : List (Place × Event ι)) :
    Event.logs (L.map i.outside) = (Event.logs L).map fun a => (i :: a.1, a.2) := by
  rw [Event.logs, Event.logs, List.filterMap_map, List.map_filterMap]
  refine List.filterMap_congr fun a _ => ?_
  obtain ⟨p, e⟩ := a
  cases e <;> rfl

/-- The text that applications of `log` print: for each of them the texts of its arguments
with single spaces between them, and a newline. -/
def printedText (L : List (Place × List (Value ι))) : String :=
  String.join (L.map fun a => " ".intercalate (a.2.map Value.render) ++ "\n")

/-- Of what happens, only the applications of `log` print. -/
theorem State.log_after (s : State ι) (L : List (Place × Event ι)) :
    (s.after (L.map (·.2))).log = s.log.append (printedText (Event.logs L)) := by
  induction L generalizing s with
  | nil => exact s.log.append_empty.symm
  | cons a L ih =>
    obtain ⟨p, e⟩ := a
    change ((s.occur e).after (L.map (·.2))).log = _
    rw [ih]
    cases e with
    | logged args =>
      change (s.log.println (Builtin.logLine args)).append _ = _
      rw [Printer.println_eq_append, Printer.append_append]
      simp [printedText, Event.logs, Event.log?, Builtin.logLine, String.join_cons]
    | _ => rfl

/-! ## Every application, at its place -/

/-- The moment at which `log` is applied to arguments on a machine. -/
abbrev Moment.log (args : List (Value ι)) (m : Machine ι) : Moment ι :=
  ⟨.apply (.builtin .log) args, m⟩

namespace Moment

variable {x y : Moment ι}

/-- Only the application of `log` prints. -/
theorem eq_log_of_mem_effect {r : Except (Interrupt ι) (x.kind.Answer ι)}
    {args : List (Value ι)} (h : .logged args ∈ x.task.effect r) : ∃ m, x = .log args m := by
  obtain ⟨t, m⟩ := x
  refine ⟨m, ?_⟩
  cases t with
  | apply callee vs =>
    cases callee with
    | builtin b =>
      cases b with
      | log =>
        cases List.mem_singleton.1 h
        rfl
      | _ => cases h
    | _ => cases h
  | statement env s =>
    cases s with
    | bind x e =>
      cases r with
      | ok v => cases List.mem_singleton.1 h
      | error i => cases h
    | _ => cases h
  | _ => cases h

theorem not_opens_of_log {args : List (Value ι)} {m : Machine ι} {i : Step} :
    ¬ (Moment.log args m).Opens limit i y := nofun

/-- What happens in an opened part, or in the body, is in the trace of the moment, one step
further out. -/
theorem Trace.of_opens {i₀ : Nat} {i : Step} {L : List (Place × Event ι)}
    (h : x.Trace limit i₀ L) (hopens : x.Opens limit i y) (hle : ∀ j, i = .part j → i₀ ≤ j) :
    ∃ L', y.Trace limit 0 L' ∧ ∀ a ∈ L', i.outside a ∈ L := by
  induction h with
  | @part x z i₀ L L' hz hL _ _ ih =>
    cases i with
    | body => exact absurd hopens hz.not_body
    | part j =>
      have hj : i₀ ≤ j := hle j rfl
      rcases Nat.lt_or_eq_of_le hj with hlt | rfl
      · obtain ⟨L'', hL'', hsub⟩ := ih hopens fun _ heq => by cases heq; omega
        exact ⟨L'', hL'', fun a ha => List.mem_append_right _ (hsub a ha)⟩
      · obtain rfl := hz.unique hopens
        exact ⟨L, hL, fun a ha => List.mem_append_left _ (List.mem_map_of_mem ha)⟩
  | @body x z L hz hL _ =>
    cases i with
    | part j => exact absurd hz hopens.not_body
    | body =>
      obtain rfl := hz.unique hopens
      exact ⟨L, hL, fun a ha => List.mem_append_right _ (List.mem_map_of_mem ha)⟩
  | own _ hlast hbody =>
    cases i with
    | part j => exact absurd hopens (hlast j _ (hle j rfl))
    | body => exact absurd hopens (hbody _)

/-- Every application of `log` in the course of a moment is in its trace. -/
theorem Course.mem_logs {p : Place} {args : List (Value ι)} {m : Machine ι}
    {L : List (Place × Event ι)} (h : x.Course limit p (.log args m)) (hL : x.Trace limit 0 L) :
    (p, args) ∈ Event.logs L := by
  rw [Event.mem_logs]
  generalize hz : Moment.log args m = z at h
  induction h generalizing L with
  | here =>
    subst hz
    cases hL with
    | part hopens _ _ => exact absurd hopens not_opens_of_log
    | body hopens _ => exact absurd hopens not_opens_of_log
    | own _ _ _ => exact List.mem_singleton_self _
  | inside hopens _ ih =>
    obtain ⟨L', hL', hsub⟩ := hL.of_opens hopens fun _ _ => Nat.zero_le _
    exact hsub _ (ih hL' hz)

/-- And the trace has no other applications of `log`. -/
theorem Trace.course_of_mem {i : Nat} {L : List (Place × Event ι)} (h : x.Trace limit i L)
    {p : Place} {args : List (Value ι)} (hp : (p, args) ∈ Event.logs L) :
    ∃ m, x.Course limit p (.log args m) := by
  rw [Event.mem_logs] at hp
  induction h generalizing p with
  | part hopens _ _ ihy ihx =>
    rcases List.mem_append.1 hp with hp | hp
    · obtain ⟨⟨q, e⟩, hq, heq⟩ := List.mem_map.1 hp
      cases heq
      obtain ⟨m, hm⟩ := ihy hq
      exact ⟨m, .inside hopens hm⟩
    · exact ihx hp
  | @body x _ _ hopens _ ihy =>
    rcases List.mem_append.1 hp with hp | hp
    · -- before a body frames are made and names are bound
      obtain ⟨e, he, heq⟩ := List.mem_map.1 hp
      cases heq
      cases hopens with
      | body _ _ =>
        rcases List.mem_cons.1 he with he | he
        · cases he
        · obtain ⟨b, -, hb⟩ := List.mem_map.1 he
          cases hb
    · obtain ⟨⟨q, e⟩, hq, heq⟩ := List.mem_map.1 hp
      cases heq
      obtain ⟨m, hm⟩ := ihy hq
      exact ⟨m, .inside hopens hm⟩
  | @own x _ r _ hends _ _ =>
    obtain ⟨e, he, heq⟩ := List.mem_map.1 hp
    cases heq
    obtain ⟨m, rfl⟩ := eq_log_of_mem_effect he
    exact ⟨m, .here⟩

/-- What happens from a part on happens at the moment itself, in its body, or in that part
or a later one. -/
theorem Trace.places {i : Nat} {L : List (Place × Event ι)} (h : x.Trace limit i L) :
    ∀ a ∈ L, a.1 = [] ∨ (∃ q, a.1 = .body :: q) ∨ ∃ j q, i ≤ j ∧ a.1 = .part j :: q := by
  induction h with
  | @part x y i L L' _ _ _ _ ihx =>
    intro a ha
    rcases List.mem_append.1 ha with ha | ha
    · obtain ⟨b, -, rfl⟩ := List.mem_map.1 ha
      exact .inr (.inr ⟨i, b.1, Nat.le_refl i, rfl⟩)
    · rcases ihx a ha with h | h | ⟨j, q, hj, h⟩
      · exact .inl h
      · exact .inr (.inl h)
      · exact .inr (.inr ⟨j, q, Nat.le_of_succ_le hj, h⟩)
  | body _ _ _ =>
    intro a ha
    rcases List.mem_append.1 ha with ha | ha
    · obtain ⟨e, -, rfl⟩ := List.mem_map.1 ha
      exact .inl rfl
    · obtain ⟨b, -, rfl⟩ := List.mem_map.1 ha
      exact .inr (.inl ⟨b.1, rfl⟩)
  | own _ _ _ =>
    intro a ha
    obtain ⟨e, -, rfl⟩ := List.mem_map.1 ha
    exact .inl rfl

end Moment

/-- One step further out, what is later stays later. -/
theorem Place.Later.outside {p q : Place} (h : q.Later p) (i : Step) :
    Place.Later (i :: q) (i :: p) := by
  obtain ⟨c, j, k, p', q', rfl, rfl, hlt⟩ := h
  exact ⟨i :: c, j, k, p', q', rfl, rfl, hlt⟩

/-- The applications of `log` in a trace come about one after the other. -/
theorem Moment.Trace.logs_pairwise {x : Moment ι} {i : Nat} {L : List (Place × Event ι)}
    (h : x.Trace limit i L) : (Event.logs L).Pairwise fun a b => b.1.Later a.1 := by
  induction h with
  | @part x y i L L' hopens hL hL' ihy ihx =>
    rw [Event.logs, List.filterMap_append, ← Event.logs, ← Event.logs, Event.logs_outside,
      List.pairwise_append]
    refine ⟨List.pairwise_map.2 (ihy.imp fun hab => hab.outside _), ihx, ?_⟩
    rintro a ha ⟨p, args⟩ hb
    obtain ⟨b, -, rfl⟩ := List.mem_map.1 ha
    -- the moment opens a part, so it is no application of `log` itself
    obtain ⟨m, hcourse⟩ := hL'.course_of_mem hb
    rcases hL'.places _ (Event.mem_logs.1 hb) with rfl | ⟨q, rfl⟩ | ⟨j, q, hj, rfl⟩
    · cases hcourse
      exact absurd hopens not_opens_of_log
    · cases hcourse with
      | inside hbody _ => exact absurd hbody hopens.not_body
    · exact ⟨[], i, j, b.1, q, rfl, rfl, hj⟩
  | @body x y L hopens hL ihy =>
    have hentry : Event.logs (Event.here x.entry) = [] := by
      cases hopens
      simp [Event.logs, Event.here, Moment.entry, Event.log?]
    rw [Event.logs, List.filterMap_append, ← Event.logs, ← Event.logs, hentry, List.nil_append,
      Event.logs_outside]
    exact List.pairwise_map.2 (ihy.imp fun hab => hab.outside _)
  | @own x _ r _ _ _ _ =>
    obtain ⟨t, m⟩ := x
    rw [Event.here]
    unfold Task.effect
    split
    · exact .nil
    · exact List.pairwise_singleton _ _
    · exact .nil

/-! ## The text of a run -/

/-- On every printer a moment ends alike, and it prints what `log` is applied to in its
course. -/
theorem Moment.Ends.printed {x : Moment ι} {r : Except (Interrupt ι) (x.kind.Answer ι)}
    {m : Machine ι} (h : x.Ends limit r m) {L : List (Place × Event ι)}
    (hL : x.Trace limit 0 L) (p : Printer) :
    (x.on p).Ends limit r { m with printer := p.append (printedText (Event.logs L)) } := by
  obtain ⟨text, htext⟩ := h.on
  have hends := htext p
  obtain ⟨L', hL', hstate, -⟩ := (Moment.ends_iff.1 hends).2.leads
  obtain rfl := hL'.unique (hL.on p)
  -- the text is told twice, by the run on this printer and by what happens in it
  have hlog : p.append text = p.append (printedText (Event.logs L')) :=
    (congrArg State.log hstate).trans (State.log_after _ L')
  rw [← hlog]
  exact hends

/-- **Output never feeds back.** An evaluation has the same outcome, the same frames and the
same number of calls in progress whether its lines go to a buffer, to standard output or
nowhere, and it finishes on all of them or on none. What it prints comes after what has been
printed: one line for each application of `log` in its course, in the order in which they
come about, and nothing else. -/
theorem output_never_feeds_back (limit : Option Nat) (m : Machine ι) (phrase : Phrase ι)
    (env : FrameId) :
    (∀ o m', m.evaluate limit phrase env = some (o, m') →
      ∃ L : List (Place × List (Value ι)), L.Pairwise (fun a b => b.1.Later a.1) ∧
        (∀ p place args, (place, args) ∈ L ↔ ∃ m₁, Moment.Course limit
          ⟨phrase.task env, { m with printer := p }⟩ place ⟨.apply (.builtin .log) args, m₁⟩) ∧
        (∀ before, Machine.evaluate { m with printer := .buffer before } limit phrase env =
          some (o, { m' with printer := .buffer (before ++ printedText L) })) ∧
        (∀ before, Machine.evaluate { m with printer := .stdout before } limit phrase env =
          some (o, { m' with printer := .stdout (before ++ printedText L) })) ∧
        Machine.evaluate { m with printer := .silent } limit phrase env =
          some (o, { m' with printer := .silent })) ∧
    (m.evaluate limit phrase env = none →
      ∀ p, Machine.evaluate { m with printer := p } limit phrase env = none) := by
  constructor
  · intro o m' h
    have hends := Machine.evaluate_eq_some_iff.1 h
    obtain ⟨L, hL, -⟩ := (Moment.ends_iff.1 hends).2.leads
    have hrun : ∀ p : Printer, Machine.evaluate { m with printer := p } limit phrase env =
        some (o, { m' with printer := p.append (printedText (Event.logs L)) }) :=
      fun p => Machine.evaluate_eq_some_iff.2 (hends.printed hL p)
    refine ⟨Event.logs L, hL.logs_pairwise, fun p place args => ⟨?_, ?_⟩,
      fun before => hrun (.buffer before), fun before => hrun (.stdout before), hrun .silent⟩
    · exact fun hmem => (hL.on p).course_of_mem hmem
    · rintro ⟨m₁, hcourse⟩
      exact hcourse.mem_logs (hL.on p)
  · exact fun h p => (phrase.eval_unread limit env).eq_none h p

attribute [local semireducible] Pending.write Store.lookup

/-- `log` under another name, applied in an argument of itself and to an array, before an
operator fails: three lines, also behind text that was there before. -/
theorem output_never_feeds_back_before_a_failure :
    let say (es : List (Expr Unit)) : Expr Unit := .call (.ident "say") es
    let p : Program Unit := ⟨[.bind "say" (.ident "log"),
      .expr (.array [say [.str "a", say [.str "b"]], say [.array [.int 1, .int 2]]]),
      .expr (.unary .neg (.bool true)), .expr (say [.str "c"])]⟩
    let m : Machine Unit := Machine.fresh (.buffer "x\n")
    let error : Outcome Unit := .error (.error (.unknownUnary .neg .boolean))
    ∃ m' : Machine Unit, m.evaluate none (.program p) Machine.root =
        some (error, { m' with printer := .buffer "x\nb\na null\n[1, 2]\n" }) ∧
      Machine.evaluate { m with printer := .stdout "" } none (.program p) Machine.root =
        some (error, { m' with printer := .stdout "b\na null\n[1, 2]\n" }) ∧
      Machine.evaluate { m with printer := .silent } none (.program p) Machine.root =
        some (error, { m' with printer := .silent }) := by
  intro say p m error
  have hrun : (m.evaluate none (.program p) Machine.root).map (fun r => (r.1, r.2.printer)) =
      some (error, .buffer "x\nb\na null\n[1, 2]\n") :=
    Machine.map_evaluate_of_nested 1 rfl
  obtain ⟨⟨o, m'⟩, h, heq⟩ := Option.map_eq_some_iff.1 hrun
  obtain ⟨rfl, hprinter⟩ := Prod.mk.inj heq
  obtain ⟨L, -, -, hbuffer, hstdout, hsilent⟩ :=
    (output_never_feeds_back none m (.program p) Machine.root).1 _ _ h
  have htext : "x\n" ++ printedText L = "x\n" ++ "b\na null\n[1, 2]\n" := by
    have hm := h.symm.trans (hbuffer "x\n")
    have hp := congrArg (fun r => r.2.printer) (Option.some.inj hm)
    exact Printer.buffer.inj (hp.symm.trans hprinter)
  refine ⟨m', ?_, ?_, hsilent⟩
  · rw [← hprinter]
    exact h
  · rw [hstdout "", (String.append_right_inj "x\n").1 htext]
    rfl

end Monkey
