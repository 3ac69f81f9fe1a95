import Monkey.Syntax.Accesses
import Monkey.Syntax.Names

/-!
# Monkey — the names that stand in a text

A name stands in a text as an identifier, as the name of a `let` or as a parameter.
The occurrences of a tree are those at any depth, inside its function literals too; so
they are the occurrences of its accesses, where a literal that is captured brings all
of its own (`Expr.occurrences_eq`).
-/

namespace Monkey

variable {ι : Type}

/-- A name where it stands in a text. -/
inductive Occurrence where
  | identifier (x : String)
  /-- `let x = …;` -/
  | letName (x : String)
  | parameter (x : String)
  deriving DecidableEq, Repr

/-- The name that stands there. -/
def Occurrence.name : Occurrence → String
  | identifier x | letName x | parameter x => x

mutual

/-- The occurrences of names in an expression. -/
def Expr.occurrences : Expr ι → List Occurrence
  | .ident x => [.identifier x]
  | .fn f => f.occurrences
  | .int _ | .str _ | .bool _ => []
  | .array es => Expr.occurrencesList es
  | .unary _ e => e.occurrences
  | .binary _ l r => l.occurrences ++ r.occurrences
  | .cond c yes none => c.occurrences ++ Stmt.occurrencesList yes
  | .cond c yes (some no) =>
    c.occurrences ++ (Stmt.occurrencesList yes ++ Stmt.occurrencesList no)
  | .call f es => f.occurrences ++ Expr.occurrencesList es
  | .index l i => l.occurrences ++ i.occurrences
termination_by structural e => e

/-- Those in a list of expressions. -/
def Expr.occurrencesList : List (Expr ι) → List Occurrence
  | [] => []
  | e :: es => e.occurrences ++ Expr.occurrencesList es
termination_by structural es => es

/-- Those in a statement. -/
def Stmt.occurrences : Stmt ι → List Occurrence
  | .bind x e => .letName x :: e.occurrences
  | .ret e => e.occurrences
  | .expr e => e.occurrences
termination_by structural s => s

/-- Those in a block. -/
def Stmt.occurrencesList : List (Stmt ι) → List Occurrence
  | [] => []
  | s :: ss => s.occurrences ++ Stmt.occurrencesList ss
termination_by structural ss => ss

/-- Those in a function literal: its parameters, and those in its body. -/
def FnLiteral.occurrences : FnLiteral ι → List Occurrence
  | ⟨_, ps, body⟩ => ps.map .parameter ++ Stmt.occurrencesList body
termination_by structural f => f

end

/-- The name is an identifier of the program, at some depth. -/
def Program.Reads (p : Program ι) (x : String) : Prop :=
  .identifier x ∈ Stmt.occurrencesList p.statements

/-- The name stands in the block, as an identifier, as the name of a `let` or as a
parameter. -/
def Block.Mentions (b : Block ι) (x : String) : Prop :=
  ∃ o ∈ Stmt.occurrencesList b, o.name = x

/-! ## Occurrences and accesses -/

/-- The occurrences that an access brings. -/
def Access.occurrences : Access ι → List Occurrence
  | .read x => [.identifier x]
  | .write x => [.letName x]
  | .capture f => f.occurrences

/-- The name that an access writes. -/
def Access.written? : Access ι → Option String
  | .write x => some x
  | .read _ | .capture _ => none

mutual

/-- What stands in an expression is what its accesses bring. -/
theorem Expr.occurrences_eq : ∀ e : Expr ι, e.occurrences = e.accesses.flatMap Access.occurrences
  | .ident _ | .int _ | .str _ | .bool _ => rfl
  | .fn f => (List.flatMap_singleton Access.occurrences (.capture f)).symm
  | .array es => Expr.occurrencesList_eq es
  | .unary _ e => e.occurrences_eq
  | .binary _ l r => by
    rw [Expr.occurrences, Expr.accesses, List.flatMap_append, l.occurrences_eq, r.occurrences_eq]
  | .cond c yes none => by
    rw [Expr.occurrences, Expr.accesses, List.flatMap_append, c.occurrences_eq,
      Stmt.occurrencesList_eq yes]
  | .cond c yes (some no) => by
    rw [Expr.occurrences, Expr.accesses, List.flatMap_append, List.flatMap_append, c.occurrences_eq,
      Stmt.occurrencesList_eq yes, Stmt.occurrencesList_eq no]
  | .call f es => by
    rw [Expr.occurrences, Expr.accesses, List.flatMap_append, f.occurrences_eq,
      Expr.occurrencesList_eq es]
  | .index l i => by
    rw [Expr.occurrences, Expr.accesses, List.flatMap_append, l.occurrences_eq, i.occurrences_eq]
termination_by structural e => e

theorem Expr.occurrencesList_eq : ∀ es : List (Expr ι),
    Expr.occurrencesList es = (Expr.accessesList es).flatMap Access.occurrences
  | [] => rfl
  | e :: es => by
    rw [Expr.occurrencesList, Expr.accessesList, List.flatMap_append, e.occurrences_eq,
      Expr.occurrencesList_eq es]
termination_by structural es => es

theorem Stmt.occurrences_eq : ∀ s : Stmt ι, s.occurrences = s.accesses.flatMap Access.occurrences
  | .bind x e => by
    rw [Stmt.occurrences, Stmt.accesses, List.flatMap_cons, e.occurrences_eq]
    rfl
  | .ret e => e.occurrences_eq
  | .expr e => e.occurrences_eq
termination_by structural s => s

theorem Stmt.occurrencesList_eq : ∀ ss : List (Stmt ι),
    Stmt.occurrencesList ss = (Stmt.accessesList ss).flatMap Access.occurrences
  | [] => rfl
  | s :: ss => by
    rw [Stmt.occurrencesList, Stmt.accessesList, List.flatMap_append, s.occurrences_eq,
      Stmt.occurrencesList_eq ss]
termination_by structural ss => ss

end

mutual

/-- The `let` statements outside function literals are the accesses that write. -/
theorem Expr.lets_eq : ∀ e : Expr ι, e.lets = e.accesses.filterMap Access.written?
  | .ident _ | .int _ | .str _ | .bool _ | .fn _ => rfl
  | .array es => Expr.letsList_eq es
  | .unary _ e => e.lets_eq
  | .binary _ l r => by rw [Expr.lets, Expr.accesses, List.filterMap_append, l.lets_eq, r.lets_eq]
  | .cond c yes none => by
    rw [Expr.lets, Expr.accesses, List.filterMap_append, c.lets_eq, Stmt.letsList_eq yes]
  | .cond c yes (some no) => by
    rw [Expr.lets, Expr.accesses, List.filterMap_append, List.filterMap_append, c.lets_eq,
      Stmt.letsList_eq yes, Stmt.letsList_eq no]
  | .call f es => by
    rw [Expr.lets, Expr.accesses, List.filterMap_append, f.lets_eq, Expr.letsList_eq es]
  | .index l i => by rw [Expr.lets, Expr.accesses, List.filterMap_append, l.lets_eq, i.lets_eq]
termination_by structural e => e

theorem Expr.letsList_eq : ∀ es : List (Expr ι),
    Expr.letsList es = (Expr.accessesList es).filterMap Access.written?
  | [] => rfl
  | e :: es => by
    rw [Expr.letsList, Expr.accessesList, List.filterMap_append, e.lets_eq, Expr.letsList_eq es]
termination_by structural es => es

theorem Stmt.lets_eq : ∀ s : Stmt ι, s.lets = s.accesses.filterMap Access.written?
  | .bind x e => by
    rw [Stmt.lets, Stmt.accesses, List.filterMap_cons, e.lets_eq]
    rfl
  | .ret e => e.lets_eq
  | .expr e => e.lets_eq
termination_by structural s => s

theorem Stmt.letsList_eq : ∀ ss : List (Stmt ι),
    Stmt.letsList ss = (Stmt.accessesList ss).filterMap Access.written?
  | [] => rfl
  | s :: ss => by
    rw [Stmt.letsList, Stmt.accessesList, List.filterMap_append, s.lets_eq, Stmt.letsList_eq ss]
termination_by structural ss => ss

end

/-- What an access of a block brings stands in the block. -/
theorem Stmt.occurrences_subset {b : Block ι} {access : Access ι}
    (h : access ∈ Stmt.accessesList b) : access.occurrences ⊆ Stmt.occurrencesList b := by
  rw [Stmt.occurrencesList_eq]
  exact fun o ho => List.mem_flatMap.2 ⟨access, h, ho⟩

/-- What stands in the body of a literal stands in the literal. -/
theorem FnLiteral.body_occurrences_subset (f : FnLiteral ι) :
    Stmt.occurrencesList f.body ⊆ f.occurrences := by
  obtain ⟨_, ps, body⟩ := f
  exact List.subset_append_right _ _

/-- A block that writes a name has a `let` of it. -/
theorem Stmt.mem_letsList_of_write {b : Block ι} {x : String}
    (h : .write x ∈ Stmt.accessesList b) : x ∈ Stmt.letsList b := by
  rw [Stmt.letsList_eq]
  exact List.mem_filterMap.2 ⟨_, h, rfl⟩

/-- A name of a `let` stands in the block. -/
theorem Block.mentions_of_mem_lets {b : Block ι} {x : String} (h : x ∈ Stmt.letsList b) :
    Block.Mentions b x := by
  rw [Stmt.letsList_eq] at h
  obtain ⟨access, haccess, hx⟩ := List.mem_filterMap.1 h
  cases access <;> cases hx
  exact ⟨_, Stmt.occurrences_subset haccess List.mem_cons_self, rfl⟩

end Monkey
