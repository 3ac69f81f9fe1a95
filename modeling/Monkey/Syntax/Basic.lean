/-!
# Monkey — syntax trees

A program is a list of statements over expressions; the branches of a condition
and the body of a function are blocks, lists of statements too. Every function
literal carries a label of a type `ι`. A tree that is only read, written or
printed has no use for labels and takes `ι = Unit`; a tree whose closures are to
be told apart has its literals numbered first (`Program.number`).
-/

namespace Monkey

/-! ## Operators -/

/-- The operators before an operand. -/
inductive UnaryOp where
  | not
  | neg
  deriving DecidableEq, Repr

namespace UnaryOp

/-- Every unary operator. -/
def all : List UnaryOp := [not, neg]

/-- An operator as it is written. -/
def symbol : UnaryOp → String
  | not => "!"
  | neg => "-"

/-- The operator written so, if there is one. -/
def ofSymbol? (s : String) : Option UnaryOp := all.find? (·.symbol == s)

theorem mem_all (op : UnaryOp) : op ∈ all := by cases op <;> decide

@[simp] theorem ofSymbol?_symbol (op : UnaryOp) : ofSymbol? op.symbol = some op := by
  cases op <;> decide

end UnaryOp

/-- The operators between two operands. -/
inductive BinaryOp where
  | add
  | sub
  | mul
  | div
  | lt
  | gt
  | eq
  | ne
  deriving DecidableEq, Repr

namespace BinaryOp

/-- Every binary operator. -/
def all : List BinaryOp := [add, sub, mul, div, lt, gt, eq, ne]

/-- An operator as it is written. -/
def symbol : BinaryOp → String
  | add => "+"
  | sub => "-"
  | mul => "*"
  | div => "/"
  | lt => "<"
  | gt => ">"
  | eq => "=="
  | ne => "!="

/-- The operator written so, if there is one. -/
def ofSymbol? (s : String) : Option BinaryOp := all.find? (·.symbol == s)

/-- Whether the operator asks if its operands are equal. -/
def isEquality : BinaryOp → Bool
  | eq | ne => true
  | _ => false

theorem mem_all (op : BinaryOp) : op ∈ all := by cases op <;> decide

@[simp] theorem ofSymbol?_symbol (op : BinaryOp) : ofSymbol? op.symbol = some op := by
  cases op <;> decide

end BinaryOp

/-! ## Trees -/

mutual

/-- An expression. -/
inductive Expr (ι : Type) where
  /-- A name, to be looked up where the expression stands. -/
  | ident (name : String)
  | int (n : Int64)
  | str (s : String)
  | bool (b : Bool)
  | array (elements : List (Expr ι))
  | unary (op : UnaryOp) (operand : Expr ι)
  | binary (op : BinaryOp) (left right : Expr ι)
  /-- A condition and its branches; the second branch may be missing. -/
  | cond (test : Expr ι) (yes : List (Stmt ι)) (no : Option (List (Stmt ι)))
  | fn (literal : FnLiteral ι)
  | call (callee : Expr ι) (arguments : List (Expr ι))
  /-- An element of an array: `left[index]`. -/
  | index (left index : Expr ι)

/-- A statement. -/
inductive Stmt (ι : Type) where
  /-- `let name = value;` -/
  | bind (name : String) (value : Expr ι)
  /-- `return value;` -/
  | ret (value : Expr ι)
  | expr (e : Expr ι)

/-- A function literal: its parameters, its body, and the label that tells it
from other literals of the same text. -/
structure FnLiteral (ι : Type) where
  label : ι
  parameters : List String
  body : List (Stmt ι)

end

/-- A statement list in braces: a branch of a condition or the body of a
function. -/
abbrev Block (ι : Type) := List (Stmt ι)

/-- A whole program. -/
structure Program (ι : Type) where
  statements : List (Stmt ι)

variable {ι : Type}

instance : Inhabited (Expr ι) := ⟨.bool false⟩
instance : Inhabited (Stmt ι) := ⟨.expr default⟩

/-! ## Equality of trees

Two trees are equal when they have the same form, the same names and constants,
and the same labels. -/

section Equality

variable [BEq ι]

mutual

/-- Whether two expressions are the same tree. -/
def Expr.beq : Expr ι → Expr ι → Bool
  | .ident a, .ident b => a == b
  | .int a, .int b => a == b
  | .str a, .str b => a == b
  | .bool a, .bool b => a == b
  | .array as, .array bs => Expr.beqList as bs
  | .unary o a, .unary p b => o == p && a.beq b
  | .binary o a b, .binary p c d => o == p && a.beq c && b.beq d
  | .cond a y none, .cond b z none => a.beq b && Stmt.beqList y z
  | .cond a y (some n), .cond b z (some m) => a.beq b && Stmt.beqList y z && Stmt.beqList n m
  | .fn f, .fn g => f.beq g
  | .call f as, .call g bs => f.beq g && Expr.beqList as bs
  | .index a b, .index c d => a.beq c && b.beq d
  | _, _ => false
termination_by structural e => e

/-- Whether two lists of expressions are the same, one by one. -/
def Expr.beqList : List (Expr ι) → List (Expr ι) → Bool
  | [], [] => true
  | a :: as, b :: bs => a.beq b && Expr.beqList as bs
  | _, _ => false
termination_by structural es => es

/-- Whether two statements are the same tree. -/
def Stmt.beq : Stmt ι → Stmt ι → Bool
  | .bind x a, .bind y b => x == y && a.beq b
  | .ret a, .ret b => a.beq b
  | .expr a, .expr b => a.beq b
  | _, _ => false
termination_by structural s => s

/-- Whether two blocks are the same, statement by statement. -/
def Stmt.beqList : List (Stmt ι) → List (Stmt ι) → Bool
  | [], [] => true
  | s :: ss, t :: ts => s.beq t && Stmt.beqList ss ts
  | _, _ => false
termination_by structural ss => ss

/-- Whether two function literals are the same tree under the same label. -/
def FnLiteral.beq : FnLiteral ι → FnLiteral ι → Bool
  | ⟨l, ps, body⟩, ⟨m, qs, other⟩ => l == m && ps == qs && Stmt.beqList body other
termination_by structural f => f

end

instance : BEq (Expr ι) := ⟨Expr.beq⟩
instance : BEq (Stmt ι) := ⟨Stmt.beq⟩
instance : BEq (FnLiteral ι) := ⟨FnLiteral.beq⟩
instance : BEq (Program ι) := ⟨fun p q => Stmt.beqList p.statements q.statements⟩

end Equality

end Monkey
