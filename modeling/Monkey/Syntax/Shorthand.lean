import Monkey.Syntax.Basic

/-!
# Monkey — writing trees by hand

Short names for the trees that a host writes most: one per operator, conditions
with and without a second branch, and unlabelled function literals.
-/

namespace Monkey

namespace Expr

variable {ι : Type}

/-- `!operand` -/
def not (operand : Expr ι) : Expr ι := .unary .not operand

/-- `-operand` -/
def neg (operand : Expr ι) : Expr ι := .unary .neg operand

/-- `left + right` -/
def add (left right : Expr ι) : Expr ι := .binary .add left right

/-- `left - right` -/
def sub (left right : Expr ι) : Expr ι := .binary .sub left right

/-- `left * right` -/
def mul (left right : Expr ι) : Expr ι := .binary .mul left right

/-- `left / right` -/
def div (left right : Expr ι) : Expr ι := .binary .div left right

/-- `left < right` -/
def lt (left right : Expr ι) : Expr ι := .binary .lt left right

/-- `left > right` -/
def gt (left right : Expr ι) : Expr ι := .binary .gt left right

/-- `left == right` -/
def eq (left right : Expr ι) : Expr ι := .binary .eq left right

/-- `left != right` -/
def ne (left right : Expr ι) : Expr ι := .binary .ne left right

/-- A condition without a second branch. -/
def when (test : Expr ι) (yes : Block ι) : Expr ι := .cond test yes none

/-- A condition with both branches. -/
def ite (test : Expr ι) (yes no : Block ι) : Expr ι := .cond test yes (some no)

/-- A function literal without a label. -/
def lambda (parameters : List String) (body : Block Unit) : Expr Unit :=
  .fn ⟨(), parameters, body⟩

end Expr

end Monkey
