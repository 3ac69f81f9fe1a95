import Monkey.Syntax.Source

/-!
# Monkey — trees under other labels

A function on labels relabels the literals of a tree and leaves all else as it is. The
text of a tree stays the same, since labels are not written; and where the function maps
labels alike exactly if they compare as equal, trees compare as equal exactly if they are
alike relabelled (`Expr.beq_iff`).
-/

namespace Monkey

variable {ι κ : Type}

section Relabelling

variable (φ : ι → κ)

mutual

/-- An expression, its literals relabelled. -/
def Expr.relabel : Expr ι → Expr κ
  | .ident x => .ident x
  | .int n => .int n
  | .str s => .str s
  | .bool b => .bool b
  | .array es => .array (Expr.relabelList es)
  | .unary op e => .unary op e.relabel
  | .binary op l r => .binary op l.relabel r.relabel
  | .cond c yes none => .cond c.relabel (Stmt.relabelList yes) none
  | .cond c yes (some no) => .cond c.relabel (Stmt.relabelList yes) (some (Stmt.relabelList no))
  | .fn f => .fn f.relabel
  | .call f es => .call f.relabel (Expr.relabelList es)
  | .index l i => .index l.relabel i.relabel
termination_by structural e => e

/-- A list of expressions, relabelled. -/
def Expr.relabelList : List (Expr ι) → List (Expr κ)
  | [] => []
  | e :: es => e.relabel :: Expr.relabelList es
termination_by structural es => es

/-- A statement, relabelled. -/
def Stmt.relabel : Stmt ι → Stmt κ
  | .bind x e => .bind x e.relabel
  | .ret e => .ret e.relabel
  | .expr e => .expr e.relabel
termination_by structural s => s

/-- A block, relabelled. -/
def Stmt.relabelList : List (Stmt ι) → List (Stmt κ)
  | [] => []
  | s :: ss => s.relabel :: Stmt.relabelList ss
termination_by structural ss => ss

/-- A function literal, relabelled. -/
def FnLiteral.relabel : FnLiteral ι → FnLiteral κ
  | ⟨l, ps, body⟩ => ⟨φ l, ps, Stmt.relabelList body⟩
termination_by structural f => f

end

theorem Expr.relabel_cond (c : Expr ι) (yes : Block ι) (no : Option (Block ι)) :
    (Expr.cond c yes no).relabel φ =
      .cond (c.relabel φ) (Stmt.relabelList φ yes) (no.map (Stmt.relabelList φ)) := by
  cases no <;> rfl

@[simp] theorem FnLiteral.label_relabel (f : FnLiteral ι) : (f.relabel φ).label = φ f.label := by
  cases f
  rfl

@[simp] theorem FnLiteral.parameters_relabel (f : FnLiteral ι) :
    (f.relabel φ).parameters = f.parameters := by
  cases f
  rfl

/-- The labels in the body of a function are changed too. -/
theorem FnLiteral.body_relabel (f : FnLiteral ι) :
    (f.relabel φ).body = Stmt.relabelList φ f.body := by
  cases f
  rfl

/-! ## The text -/

mutual

/-- The text of an expression has no labels in it. -/
theorem Expr.source_relabel : ∀ e : Expr ι, (e.relabel φ).source = e.source
  | .ident _ | .int _ | .str _ | .bool _ => rfl
  | .array es => by rw [Expr.relabel, Expr.source, Expr.source, Expr.sources_relabel es]
  | .unary _ e => by rw [Expr.relabel, Expr.source, Expr.source, e.source_relabel]
  | .binary _ l r => by
    rw [Expr.relabel, Expr.source, Expr.source, l.source_relabel, r.source_relabel]
  | .cond c yes none => by
    rw [Expr.relabel, Expr.source, Expr.source, c.source_relabel, Stmt.sources_relabel yes]
  | .cond c yes (some no) => by
    rw [Expr.relabel, Expr.source, Expr.source, c.source_relabel, Stmt.sources_relabel yes,
      Stmt.sources_relabel no]
  | .fn f => by rw [Expr.relabel, Expr.source, Expr.source, f.source_relabel]
  | .call f es => by
    rw [Expr.relabel, Expr.source, Expr.source, f.source_relabel, Expr.sources_relabel es]
  | .index l i => by
    rw [Expr.relabel, Expr.source, Expr.source, l.source_relabel, i.source_relabel]
termination_by structural e => e

theorem Expr.sources_relabel : ∀ es : List (Expr ι),
    Expr.sources (Expr.relabelList φ es) = Expr.sources es
  | [] => rfl
  | e :: es => by
    rw [Expr.relabelList, Expr.sources, Expr.sources, e.source_relabel, Expr.sources_relabel es]
termination_by structural es => es

theorem Stmt.source_relabel : ∀ s : Stmt ι, (s.relabel φ).source = s.source
  | .bind _ e | .ret e | .expr e => by rw [Stmt.relabel, Stmt.source, Stmt.source, e.source_relabel]
termination_by structural s => s

/-- The text of a block does not depend on the labels. -/
theorem Stmt.sources_relabel : ∀ ss : List (Stmt ι),
    Stmt.sources (Stmt.relabelList φ ss) = Stmt.sources ss
  | [] => rfl
  | s :: ss => by
    rw [Stmt.relabelList, Stmt.sources, Stmt.sources, s.source_relabel, Stmt.sources_relabel ss]
termination_by structural ss => ss

/-- Nor has that of a function, so functions that differ in their labels are written alike. -/
theorem FnLiteral.source_relabel : ∀ f : FnLiteral ι, (f.relabel φ).source = f.source
  | ⟨_, _, body⟩ => by
    rw [FnLiteral.relabel, FnLiteral.source, FnLiteral.source, Stmt.sources_relabel body]
termination_by structural f => f

end

end Relabelling

/-! ## Equality -/

section Equality

variable [BEq ι] {φ : ι → κ}

/-- The function maps two labels alike exactly if they compare as equal. -/
def Separates (φ : ι → κ) : Prop := ∀ a b : ι, (a == b) = true ↔ φ a = φ b

mutual

/-- Two expressions are the same tree, as far as labels are told apart, if they are one
expression after relabelling. -/
theorem Expr.beq_iff (hφ : Separates φ) :
    ∀ a b : Expr ι, a.beq b = true ↔ a.relabel φ = b.relabel φ
  | .ident x, b => by cases b <;> simp [Expr.beq, Expr.relabel, Expr.relabel_cond]
  | .int n, b => by cases b <;> simp [Expr.beq, Expr.relabel, Expr.relabel_cond]
  | .str s, b => by cases b <;> simp [Expr.beq, Expr.relabel, Expr.relabel_cond]
  | .bool t, b => by cases b <;> simp [Expr.beq, Expr.relabel, Expr.relabel_cond]
  | .array as, b => by
    cases b with
    | array bs => simp [Expr.beq, Expr.relabel, Expr.beqList_iff hφ as bs]
    | _ => simp [Expr.beq, Expr.relabel, Expr.relabel_cond]
  | .unary o a, b => by
    cases b with
    | unary p b => simp [Expr.beq, Expr.relabel, a.beq_iff hφ b]
    | _ => simp [Expr.beq, Expr.relabel, Expr.relabel_cond]
  | .binary o l r, b => by
    cases b with
    | binary p l' r' => simp [Expr.beq, Expr.relabel, l.beq_iff hφ l', r.beq_iff hφ r', and_assoc]
    | _ => simp [Expr.beq, Expr.relabel, Expr.relabel_cond]
  | .cond c yes none, b => by
    cases b with
    | cond c' yes' no' =>
      cases no' with
      | none =>
        simp [Expr.beq, Expr.relabel, c.beq_iff hφ c', Stmt.beqList_iff hφ yes yes']
      | some no' => simp [Expr.beq, Expr.relabel]
    | _ => simp [Expr.beq, Expr.relabel]
  | .cond c yes (some no), b => by
    cases b with
    | cond c' yes' no' =>
      cases no' with
      | none => simp [Expr.beq, Expr.relabel]
      | some no' =>
        simp [Expr.beq, Expr.relabel, c.beq_iff hφ c', Stmt.beqList_iff hφ yes yes',
          Stmt.beqList_iff hφ no no', and_assoc]
    | _ => simp [Expr.beq, Expr.relabel]
  | .fn f, b => by
    cases b with
    | fn g => simp [Expr.beq, Expr.relabel, f.beq_iff hφ g]
    | _ => simp [Expr.beq, Expr.relabel, Expr.relabel_cond]
  | .call f as, b => by
    cases b with
    | call g bs => simp [Expr.beq, Expr.relabel, f.beq_iff hφ g, Expr.beqList_iff hφ as bs]
    | _ => simp [Expr.beq, Expr.relabel, Expr.relabel_cond]
  | .index l i, b => by
    cases b with
    | index l' i' => simp [Expr.beq, Expr.relabel, l.beq_iff hφ l', i.beq_iff hφ i']
    | _ => simp [Expr.beq, Expr.relabel, Expr.relabel_cond]
termination_by structural a => a

theorem Expr.beqList_iff (hφ : Separates φ) :
    ∀ as bs : List (Expr ι), Expr.beqList as bs = true ↔
      Expr.relabelList φ as = Expr.relabelList φ bs
  | [], bs => by cases bs <;> simp [Expr.beqList, Expr.relabelList]
  | a :: as, bs => by
    cases bs with
    | nil => simp [Expr.beqList, Expr.relabelList]
    | cons b bs => simp [Expr.beqList, Expr.relabelList, a.beq_iff hφ b, Expr.beqList_iff hφ as bs]
termination_by structural as => as

/-- The same of statements. -/
theorem Stmt.beq_iff (hφ : Separates φ) :
    ∀ s t : Stmt ι, s.beq t = true ↔ s.relabel φ = t.relabel φ
  | .bind x a, t => by
    cases t with
    | bind y b => simp [Stmt.beq, Stmt.relabel, a.beq_iff hφ b]
    | _ => simp [Stmt.beq, Stmt.relabel]
  | .ret a, t => by
    cases t with
    | ret b => simp [Stmt.beq, Stmt.relabel, a.beq_iff hφ b]
    | _ => simp [Stmt.beq, Stmt.relabel]
  | .expr a, t => by
    cases t with
    | expr b => simp [Stmt.beq, Stmt.relabel, a.beq_iff hφ b]
    | _ => simp [Stmt.beq, Stmt.relabel]
termination_by structural s => s

theorem Stmt.beqList_iff (hφ : Separates φ) :
    ∀ ss ts : List (Stmt ι), Stmt.beqList ss ts = true ↔
      Stmt.relabelList φ ss = Stmt.relabelList φ ts
  | [], ts => by cases ts <;> simp [Stmt.beqList, Stmt.relabelList]
  | s :: ss, ts => by
    cases ts with
    | nil => simp [Stmt.beqList, Stmt.relabelList]
    | cons t ts => simp [Stmt.beqList, Stmt.relabelList, s.beq_iff hφ t, Stmt.beqList_iff hφ ss ts]
termination_by structural ss => ss

/-- A function literal has a label of its own, and those in its body. -/
theorem FnLiteral.beq_iff (hφ : Separates φ) :
    ∀ f g : FnLiteral ι, f.beq g = true ↔ f.relabel φ = g.relabel φ
  | ⟨l, ps, body⟩, ⟨m, qs, other⟩ => by
    simp [FnLiteral.beq, FnLiteral.relabel, hφ l m, Stmt.beqList_iff hφ body other, and_assoc]
termination_by structural f => f

end

end Equality

end Monkey
