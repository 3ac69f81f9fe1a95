import Mathlib.Data.List.Nodup
import Monkey.Syntax.Accesses
import Monkey.Syntax.Labelling

/-!
# Monkey — the places of a program text

A program text is made of nodes inside nodes; the body of a function literal is a node
one literal deeper. `Program.Contains` says of a node that it stands in the text of a
program, and inside which function literals. The same literal may be written at several
places; where no two literals share a label, each stands at one place alone
(`Program.Contains.unique`), and numbering a program brings that about
(`Program.number_labels`).
-/

namespace Monkey

variable {ι : Type}

/-! ## Nodes -/

/-- A piece of a program text. -/
inductive Node (ι : Type) where
  | expression (e : Expr ι)
  | expressions (es : List (Expr ι))
  | statement (s : Stmt ι)
  | block (ss : Block ι)

/-- The nodes that a node consists of, in the order of the text. The body of a function
literal is not among them. -/
def Node.parts : Node ι → List (Node ι)
  | .expression (.ident _) | .expression (.int _) | .expression (.str _) | .expression (.bool _)
  | .expression (.fn _) => []
  | .expression (.array es) => [.expressions es]
  | .expression (.unary _ e) => [.expression e]
  | .expression (.binary _ l r) => [.expression l, .expression r]
  | .expression (.cond c yes none) => [.expression c, .block yes]
  | .expression (.cond c yes (some no)) => [.expression c, .block yes, .block no]
  | .expression (.call f es) => [.expression f, .expressions es]
  | .expression (.index l i) => [.expression l, .expression i]
  | .expressions [] => []
  | .expressions (e :: es) => [.expression e, .expressions es]
  | .statement (.bind _ e) | .statement (.ret e) | .statement (.expr e) => [.expression e]
  | .block [] => []
  | .block (s :: ss) => [.statement s, .block ss]

/-- A node stands in the text of a program, inside the given function literals, the
innermost one first. -/
inductive Program.Contains (p : Program ι) : List (FnLiteral ι) → Node ι → Prop
  | whole : Contains p [] (.block p.statements)
  | part {fs : List (FnLiteral ι)} {node part : Node ι} :
      Contains p fs node → part ∈ node.parts → Contains p fs part
  | body {fs : List (FnLiteral ι)} {f : FnLiteral ι} :
      Contains p fs (.expression (.fn f)) → Contains p (f :: fs) (.block f.body)

/-! ## Function literals -/

/-- A function literal, after those that it stands in, the innermost one first. -/
abbrev Site (ι : Type) := List (FnLiteral ι) × FnLiteral ι

mutual

/-- The function literals of an expression that stands in some others. -/
def Expr.literals (fs : List (FnLiteral ι)) : Expr ι → List (Site ι)
  | .ident _ | .int _ | .str _ | .bool _ => []
  | .array es => Expr.literalsList fs es
  | .unary _ e => e.literals fs
  | .binary _ l r => l.literals fs ++ r.literals fs
  | .cond c yes none => c.literals fs ++ Stmt.literalsList fs yes
  | .cond c yes (some no) =>
    c.literals fs ++ (Stmt.literalsList fs yes ++ Stmt.literalsList fs no)
  | .fn f => f.literals fs
  | .call f es => f.literals fs ++ Expr.literalsList fs es
  | .index l i => l.literals fs ++ i.literals fs
termination_by structural e => e

/-- Those of a list of expressions. -/
def Expr.literalsList (fs : List (FnLiteral ι)) : List (Expr ι) → List (Site ι)
  | [] => []
  | e :: es => e.literals fs ++ Expr.literalsList fs es
termination_by structural es => es

/-- Those of a statement. -/
def Stmt.literals (fs : List (FnLiteral ι)) : Stmt ι → List (Site ι)
  | .bind _ e => e.literals fs
  | .ret e => e.literals fs
  | .expr e => e.literals fs
termination_by structural s => s

/-- Those of a block. -/
def Stmt.literalsList (fs : List (FnLiteral ι)) : List (Stmt ι) → List (Site ι)
  | [] => []
  | s :: ss => s.literals fs ++ Stmt.literalsList fs ss
termination_by structural ss => ss

/-- A function literal and those in its body. -/
def FnLiteral.literals (fs : List (FnLiteral ι)) : FnLiteral ι → List (Site ι)
  | ⟨l, ps, body⟩ => (fs, ⟨l, ps, body⟩) :: Stmt.literalsList (⟨l, ps, body⟩ :: fs) body
termination_by structural f => f

end

/-- A function literal is inside the others, and its own literals are inside it. -/
theorem FnLiteral.literals_eq (fs : List (FnLiteral ι)) (f : FnLiteral ι) :
    f.literals fs = (fs, f) :: Stmt.literalsList (f :: fs) f.body := by
  cases f
  rfl

/-- The function literals of a node that stands in some others. -/
def Node.literals (fs : List (FnLiteral ι)) : Node ι → List (Site ι)
  | .expression e => e.literals fs
  | .expressions es => Expr.literalsList fs es
  | .statement s => s.literals fs
  | .block ss => Stmt.literalsList fs ss

namespace Program

/-- The function literals of a program, in the order in which they begin in the text. -/
def literals (p : Program ι) : List (Site ι) := Stmt.literalsList [] p.statements

/-- Their labels. -/
def labels (p : Program ι) : List ι := p.literals.map (·.2.label)

/-- How many function literals stand inside each other, at most. -/
def nesting (p : Program ι) : Nat := (p.literals.map (·.1.length + 1)).max?.getD 0

end Program

/-- The literals of a part are among those of the whole. -/
theorem Node.literals_subset_of_mem_parts {node part : Node ι} (h : part ∈ node.parts)
    (fs : List (FnLiteral ι)) : part.literals fs ⊆ node.literals fs := by
  intro site hsite
  fun_cases Node.parts node <;> grind [Node.parts, Node.literals, Expr.literals,
    Expr.literalsList, Stmt.literals, Stmt.literalsList]

namespace Program.Contains

variable {p : Program ι} {fs gs : List (FnLiteral ι)} {f : FnLiteral ι} {node : Node ι}

/-- What stands in the body of a function literal, that literal stands around it. -/
theorem around (h : p.Contains (f :: fs) node) : p.Contains fs (.expression (.fn f)) := by
  generalize hgs : f :: fs = gs at h
  induction h with
  | whole => cases hgs
  | part _ _ ih => exact ih hgs
  | body hf _ =>
    cases hgs
    exact hf

theorem literals_subset (h : p.Contains fs node) : node.literals fs ⊆ p.literals := by
  induction h with
  | whole => exact List.Subset.refl _
  | part _ hpart ih => exact List.Subset.trans (Node.literals_subset_of_mem_parts hpart _) ih
  | @body fs f _ ih =>
    change f.literals fs ⊆ p.literals at ih
    rw [FnLiteral.literals_eq] at ih
    exact List.Subset.trans (List.subset_cons_self _ _) ih

/-- Every function literal of the text is among those that are listed. -/
theorem mem_literals (h : p.Contains fs (.expression (.fn f))) : (fs, f) ∈ p.literals := by
  refine h.literals_subset ?_
  change (fs, f) ∈ f.literals fs
  rw [FnLiteral.literals_eq]
  exact List.mem_cons_self

/-- No node stands inside more function literals than the deepest nesting. -/
theorem length_le (h : p.Contains fs node) : fs.length ≤ p.nesting := by
  cases fs with
  | nil => exact Nat.zero_le _
  | cons f fs =>
    exact List.le_max?_getD_of_mem (List.mem_map_of_mem h.around.mem_literals)

/-- Where no two literals share a label, each stands at one place alone. -/
theorem unique (hp : p.labels.Nodup) (hf : p.Contains fs (.expression (.fn f)))
    (hg : p.Contains gs (.expression (.fn f))) : gs = fs :=
  congrArg Prod.fst (List.inj_on_of_nodup_map hp hg.mem_literals hf.mem_literals rfl)

/-- So the innermost literal around a node tells all those around it. -/
theorem unique_of_head {node' : Node ι} (hp : p.labels.Nodup) (h : p.Contains fs node)
    (h' : p.Contains gs node') (heq : fs.head? = gs.head?) : fs = gs := by
  cases fs with
  | nil => exact (List.head?_eq_none_iff.1 heq.symm).symm
  | cons f fs =>
    cases gs with
    | nil => cases heq
    | cons g gs =>
      cases heq
      rw [h'.around.unique hp h.around]

end Program.Contains

/-! ## What a node captures -/

section Captures

variable {p : Program ι} {fs : List (FnLiteral ι)} {f : FnLiteral ι}

mutual

/-- A function literal that an expression captures stands where the expression does. -/
theorem Expr.contains_of_capture : ∀ {e : Expr ι}, p.Contains fs (.expression e) →
    .capture f ∈ e.accesses → p.Contains fs (.expression (.fn f))
  | .fn _, h, hf => by
    cases List.mem_singleton.1 hf
    exact h
  | .ident _, _, hf => by cases List.mem_singleton.1 hf
  | .int _, _, hf | .str _, _, hf | .bool _, _, hf => by cases hf
  | .array _, h, hf => Expr.contains_of_capture_list (h.part (by simp [Node.parts])) hf
  | .unary _ e, h, hf => Expr.contains_of_capture (e := e) (h.part (by simp [Node.parts])) hf
  | .binary _ _ _, h, hf | .index _ _, h, hf =>
    (List.mem_append.1 hf).elim (Expr.contains_of_capture (h.part (by simp [Node.parts])))
      (Expr.contains_of_capture (h.part (by simp [Node.parts])))
  | .cond _ _ none, h, hf =>
    (List.mem_append.1 hf).elim (Expr.contains_of_capture (h.part (by simp [Node.parts])))
      (Stmt.contains_of_capture_list (h.part (by simp [Node.parts])))
  | .cond _ _ (some _), h, hf =>
    (List.mem_append.1 hf).elim (Expr.contains_of_capture (h.part (by simp [Node.parts])))
      fun hf => (List.mem_append.1 hf).elim
        (Stmt.contains_of_capture_list (h.part (by simp [Node.parts])))
        (Stmt.contains_of_capture_list (h.part (by simp [Node.parts])))
  | .call _ _, h, hf =>
    (List.mem_append.1 hf).elim (Expr.contains_of_capture (h.part (by simp [Node.parts])))
      (Expr.contains_of_capture_list (h.part (by simp [Node.parts])))
termination_by structural e => e

theorem Expr.contains_of_capture_list : ∀ {es : List (Expr ι)}, p.Contains fs (.expressions es) →
    .capture f ∈ Expr.accessesList es → p.Contains fs (.expression (.fn f))
  | [], _, hf => by cases hf
  | _ :: _, h, hf =>
    (List.mem_append.1 hf).elim (Expr.contains_of_capture (h.part (by simp [Node.parts])))
      (Expr.contains_of_capture_list (h.part (by simp [Node.parts])))
termination_by structural es => es

theorem Stmt.contains_of_capture : ∀ {s : Stmt ι}, p.Contains fs (.statement s) →
    .capture f ∈ s.accesses → p.Contains fs (.expression (.fn f))
  | .bind _ e, h, hf => by
    rcases List.mem_cons.1 hf with hf | hf
    · cases hf
    · exact Expr.contains_of_capture (e := e) (h.part (by simp [Node.parts])) hf
  | .ret e, h, hf | .expr e, h, hf =>
    Expr.contains_of_capture (e := e) (h.part (by simp [Node.parts])) hf
termination_by structural s => s

theorem Stmt.contains_of_capture_list : ∀ {ss : List (Stmt ι)}, p.Contains fs (.block ss) →
    .capture f ∈ Stmt.accessesList ss → p.Contains fs (.expression (.fn f))
  | [], _, hf => by cases hf
  | _ :: _, h, hf =>
    (List.mem_append.1 hf).elim (Stmt.contains_of_capture (h.part (by simp [Node.parts])))
      (Stmt.contains_of_capture_list (h.part (by simp [Node.parts])))
termination_by structural ss => ss

end

/-- What a node does with its frame. -/
def Node.accesses : Node ι → List (Access ι)
  | .expression e => e.accesses
  | .expressions es => Expr.accessesList es
  | .statement s => s.accesses
  | .block ss => Stmt.accessesList ss

/-- A function literal that a node captures stands where the node does. -/
theorem Program.Contains.of_capture {node : Node ι} (h : p.Contains fs node)
    (hf : .capture f ∈ node.accesses) : p.Contains fs (.expression (.fn f)) := by
  cases node with
  | expression e => exact Expr.contains_of_capture h hf
  | expressions es => exact Expr.contains_of_capture_list h hf
  | statement s => exact Stmt.contains_of_capture h hf
  | block ss => exact Stmt.contains_of_capture_list h hf

end Captures

/-! ## Numbering -/

/-- The labelling gives out the labels from each number on, one after the other, to the
literals of its result, after those which are there already. -/
def Labelling.Gives {β : Type} (literals : List (FnLiteral Nat) → β → List (Site Nat))
    (given : List Nat) (x : Labelling β) : Prop :=
  ∀ n, ∃ k, (x.run n).2 = n + k ∧
    ∀ fs, (literals fs (x.run n).1).map (·.2.label) = given ++ List.range' n k

namespace Labelling.Gives

variable {β γ : Type} {L : List (FnLiteral Nat) → β → List (Site Nat)} {given : List Nat}
variable {U : List (FnLiteral Nat) → γ → List (Site Nat)}

theorem pure {b : β} (h : ∀ fs, (L fs b).map (·.2.label) = given) :
    Gives L given (pure b : Labelling β) :=
  fun _ => ⟨0, rfl, fun fs => (h fs).trans (List.append_nil _).symm⟩

theorem bind {x : Labelling β} {f : β → Labelling γ} (hx : Gives L [] x)
    (hf : ∀ b labels, (∀ fs, (L fs b).map (·.2.label) = labels) →
      Gives U (given ++ labels) (f b)) :
    Gives U given (x >>= f) := by
  intro n
  obtain ⟨k, hnext, hlabels⟩ := hx n
  obtain ⟨k', hnext', hlabels'⟩ := hf _ _ hlabels (n + k)
  rw [← hnext] at hnext' hlabels'
  refine ⟨k + k', ?_, fun fs => ?_⟩
  · rw [← Nat.add_assoc, ← hnext]
    exact hnext'
  · refine (hlabels' fs).trans ?_
    rw [hnext, List.nil_append, List.append_assoc, List.range'_append_1]

end Labelling.Gives

mutual

/-- Numbering gives labels to the literals of an expression, in their order. -/
theorem Expr.number_gives : ∀ e : Expr ι, Labelling.Gives (fun fs e => e.literals fs) [] e.number
  | .ident _ | .int _ | .str _ | .bool _ => .pure fun _ => rfl
  | .array es => .bind (Expr.number_gives_list es) fun _ _ h => .pure h
  | .unary _ e => .bind (Expr.number_gives e) fun _ _ h => .pure h
  | .binary _ l r | .index l r =>
    .bind (Expr.number_gives l) fun _ _ hl => .bind (Expr.number_gives r) fun _ _ hr =>
      .pure fun fs => by simp [Expr.literals, hl, hr]
  | .cond c yes none =>
    .bind (Expr.number_gives c) fun _ _ hc => .bind (Stmt.number_gives_list yes) fun _ _ hyes =>
      .pure fun fs => by simp [Expr.literals, hc, hyes]
  | .cond c yes (some no) =>
    .bind (Expr.number_gives c) fun _ _ hc => .bind (Stmt.number_gives_list yes) fun _ _ hyes =>
      .bind (Stmt.number_gives_list no) fun _ _ hno =>
        .pure fun fs => by simp [Expr.literals, hc, hyes, hno]
  | .fn f => .bind (FnLiteral.number_gives f) fun _ _ h => .pure h
  | .call f es =>
    .bind (Expr.number_gives f) fun _ _ hf => .bind (Expr.number_gives_list es) fun _ _ hes =>
      .pure fun fs => by simp [Expr.literals, hf, hes]
termination_by structural e => e

theorem Expr.number_gives_list :
    ∀ es : List (Expr ι), Labelling.Gives Expr.literalsList [] (Expr.numberList es)
  | [] => .pure fun _ => rfl
  | e :: es =>
    .bind (Expr.number_gives e) fun _ _ he => .bind (Expr.number_gives_list es) fun _ _ hes =>
      .pure fun fs => by simp [Expr.literalsList, he, hes]
termination_by structural es => es

theorem Stmt.number_gives :
    ∀ s : Stmt ι, Labelling.Gives (fun fs s => s.literals fs) [] s.number
  | .bind _ e | .ret e | .expr e => .bind (Expr.number_gives e) fun _ _ h => .pure h
termination_by structural s => s

theorem Stmt.number_gives_list :
    ∀ ss : List (Stmt ι), Labelling.Gives Stmt.literalsList [] (Stmt.numberList ss)
  | [] => .pure fun _ => rfl
  | s :: ss =>
    .bind (Stmt.number_gives s) fun _ _ hs => .bind (Stmt.number_gives_list ss) fun _ _ hss =>
      .pure fun fs => by simp [Stmt.literalsList, hs, hss]
termination_by structural ss => ss

theorem FnLiteral.number_gives :
    ∀ f : FnLiteral ι, Labelling.Gives (fun fs f => f.literals fs) [] f.number
  | ⟨_, ps, body⟩ => by
    intro n
    obtain ⟨k, hnext, hlabels⟩ := Stmt.number_gives_list body (n + 1)
    refine ⟨k + 1, ?_, fun fs => ?_⟩
    · exact hnext.trans (Nat.add_right_comm n 1 k)
    · exact congrArg (n :: ·) (hlabels _)
termination_by structural f => f

end

/-- The labels of a numbered program are the numbers from the first label on, in order. -/
theorem Program.number_labels (p : Program ι) (n : Nat) :
    ∃ k, (p.number.run n).1.labels = List.range' n k := by
  obtain ⟨k, -, hlabels⟩ := Stmt.number_gives_list p.statements n
  exact ⟨k, hlabels []⟩

/-- So no two literals of a numbered program share a label. -/
theorem Program.number_labels_nodup (p : Program ι) (n : Nat) :
    (p.number.run n).1.labels.Nodup := by
  obtain ⟨k, hlabels⟩ := p.number_labels n
  rw [hlabels]
  exact List.nodup_range'

end Monkey
