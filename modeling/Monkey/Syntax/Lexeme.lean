import Monkey.Syntax.Source

/-!
# Monkey — the lexemes of source text

The canonical text of a tree is a row of lexemes: words, string literals and single
characters, white space among them. The rows are laid down here form by form, as the texts
are (`Expr.source` and its fellows).
-/

namespace Monkey

/-- The words that are no names. -/
def keywords : List String := ["let", "return", "if", "else", "fn", "true", "false"]

/-- A character of a word. -/
def IsWordChar (c : Char) : Prop := c.isAlphanum ∨ c = '_'

instance (c : Char) : Decidable (IsWordChar c) := inferInstanceAs (Decidable (_ ∨ _))

/-- A run of letters, digits and underscores that does not start with a digit. -/
structure IsBareWord (w : String) : Prop where
  nonempty : w.toList ≠ []
  word : ∀ c ∈ w.toList, IsWordChar c
  first : ∀ c ∈ w.toList.head?, ¬ c.isDigit

theorem isBareWord_iff {w : String} : IsBareWord w ↔ w.toList ≠ [] ∧
    (∀ c ∈ w.toList, IsWordChar c) ∧ ∀ c ∈ w.toList.head?, ¬ c.isDigit :=
  ⟨fun h => ⟨h.nonempty, h.word, h.first⟩, fun h => ⟨h.1, h.2.1, h.2.2⟩⟩

-- The instances are named, for the characters of the word are to be gone through, not all
-- characters there are.
instance (w : String) : Decidable (IsBareWord w) :=
  letI : Decidable (∀ c ∈ w.toList, IsWordChar c) := List.decidableBAll _ _
  letI : Decidable (∀ c ∈ w.toList.head?, ¬ c.isDigit) := Option.decidableForallMem _
  decidable_of_iff' _ isBareWord_iff

/-- A name as it is written in source text. -/
structure IsIdentifier (x : String) : Prop extends IsBareWord x where
  not_keyword : x ∉ keywords

theorem isIdentifier_iff {x : String} : IsIdentifier x ↔ IsBareWord x ∧ x ∉ keywords :=
  ⟨fun h => ⟨h.toIsBareWord, h.not_keyword⟩, fun h => ⟨h.1, h.2⟩⟩

instance (x : String) : Decidable (IsIdentifier x) := decidable_of_iff' _ isIdentifier_iff

/-- A lexeme. -/
inductive Lexeme where
  | keyword (w : String)
  | name (x : String)
  | number (n : Nat)
  /-- A string literal, with the string that it stands for. -/
  | literal (s : String)
  /-- A single character: a bracket, an operator or a part of one, or white space. -/
  | mark (c : Char)
  deriving DecidableEq, Repr

namespace Lexeme

/-- The text of a lexeme. -/
def text : Lexeme → String
  | keyword w => w
  | name x => x
  | number n => n.repr
  | literal s => Text.quote s
  | mark c => String.singleton c

/-- The characters of a row of lexemes. -/
def chars (ts : List Lexeme) : List Char := ts.flatMap fun t => t.text.toList

/-- The rows of a list, with commas between them. -/
def listed (rows : List (List Lexeme)) : List Lexeme :=
  [mark ',', mark ' '].intercalate rows

/-- The rows of a block in braces. -/
def braced (rows : List (List Lexeme)) : List Lexeme :=
  [mark ' ', mark '\x7b', mark ' '] ++ [mark ' '].intercalate rows ++ [mark ' ', mark '\x7d']

end Lexeme

open Lexeme

variable {ι : Type}

/-- The lexemes of an integer. -/
def intLexemes (n : Int64) : List Lexeme :=
  if n.toInt < 0 then [mark '-', number n.toInt.natAbs] else [number n.toInt.natAbs]

mutual

/-- The lexemes of an expression. -/
def Expr.lexemes : Expr ι → List Lexeme
  | .ident x => [name x]
  | .int n => intLexemes n
  | .str s => [literal s]
  | .bool b => [keyword (boolText b)]
  | .array es => mark '[' :: (listed (Expr.rows es) ++ [mark ']'])
  | .unary op e => mark '(' :: (op.symbol.toList.map mark ++ e.lexemes ++ [mark ')'])
  | .binary op l r =>
    mark '(' :: (l.lexemes ++ mark ' ' :: (op.symbol.toList.map mark ++
      mark ' ' :: (r.lexemes ++ [mark ')'])))
  | .cond c yes none => keyword "if" :: mark ' ' :: (c.lexemes ++ braced (Stmt.rows yes))
  | .cond c yes (some no) =>
    keyword "if" :: mark ' ' :: (c.lexemes ++ braced (Stmt.rows yes) ++
      mark ' ' :: keyword "else" :: braced (Stmt.rows no))
  | .fn f => f.lexemes
  | .call f es => f.lexemes ++ mark '(' :: (listed (Expr.rows es) ++ [mark ')'])
  | .index l i =>
    mark '(' :: (l.lexemes ++ mark '[' :: (i.lexemes ++ [mark ']', mark ')']))
termination_by structural e => e

/-- The lexemes of a list of expressions. -/
def Expr.rows : List (Expr ι) → List (List Lexeme)
  | [] => []
  | e :: es => e.lexemes :: Expr.rows es
termination_by structural es => es

/-- The lexemes of a statement. -/
def Stmt.lexemes : Stmt ι → List Lexeme
  | .bind x e =>
    keyword "let" :: mark ' ' :: name x :: mark ' ' :: mark '=' :: mark ' ' ::
      (e.lexemes ++ [mark ';'])
  | .ret e => keyword "return" :: mark ' ' :: (e.lexemes ++ [mark ';'])
  | .expr e => e.lexemes
termination_by structural s => s

/-- The lexemes of a list of statements. -/
def Stmt.rows : List (Stmt ι) → List (List Lexeme)
  | [] => []
  | s :: ss => s.lexemes :: Stmt.rows ss
termination_by structural ss => ss

/-- The lexemes of a function literal. -/
def FnLiteral.lexemes : FnLiteral ι → List Lexeme
  | ⟨_, ps, body⟩ =>
    keyword "fn" :: mark '(' :: (listed (ps.map fun p => [name p]) ++
      mark ')' :: braced (Stmt.rows body))
termination_by structural f => f

end

/-- The lexemes of a block. -/
def Block.lexemes (b : Block ι) : List Lexeme := [mark ' '].intercalate (Stmt.rows b)

/-- The lexemes of a program. -/
def Program.lexemes (p : Program ι) : List Lexeme :=
  [mark '\n'].intercalate (Stmt.rows p.statements)

end Monkey
