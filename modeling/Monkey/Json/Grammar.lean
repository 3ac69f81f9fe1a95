import Monkey.Json.Tree

/-!
# Monkey — the grammar of JSON texts

A text holds a document if it is the document's row of tokens, every token in one of
its spellings, with white space anywhere around them. A character of a string may stand
for itself, be escaped by a letter that it has, or be escaped by its number: by one
code unit, or by two if it lies beyond the first 65536 characters.
-/

namespace Monkey.Json

/-- White space. -/
def IsBlank (c : Char) : Prop := c = ' ' ∨ c = '\t' ∨ c = '\n' ∨ c = '\r'

/-! ## Numbers -/

/-- One digit or more. -/
def IsDigits (cs : List Char) : Prop := cs ≠ [] ∧ ∀ c ∈ cs, c.isDigit

/-- A minus sign, or nothing. -/
def IsMinus (cs : List Char) : Prop := cs = [] ∨ cs = ['-']

/-- The part of a number before the point: zero, or digits of which zero is not the
first. -/
def IsWhole (cs : List Char) : Prop := cs = ['0'] ∨ IsDigits cs ∧ cs.head? ≠ some '0'

/-- The point and the digits behind it, or nothing. -/
def IsFraction (cs : List Char) : Prop := cs = [] ∨ ∃ ds, IsDigits ds ∧ cs = '.' :: ds

/-- The letter of an exponent. -/
def IsExponentLetter (c : Char) : Prop := c = 'e' ∨ c = 'E'

/-- The sign of an exponent, or nothing. -/
def IsExponentSign (cs : List Char) : Prop := cs = [] ∨ cs = ['+'] ∨ cs = ['-']

/-- An exponent, or nothing. -/
def IsExponent (cs : List Char) : Prop :=
  cs = [] ∨ ∃ e sign ds, IsExponentLetter e ∧ IsExponentSign sign ∧ IsDigits ds ∧
    cs = e :: (sign ++ ds)

/-- A number. -/
def IsNumber (cs : List Char) : Prop :=
  ∃ minus whole fraction exponent, IsMinus minus ∧ IsWhole whole ∧ IsFraction fraction ∧
    IsExponent exponent ∧ cs = minus ++ whole ++ fraction ++ exponent

/-! ## Strings -/

/-- The number that is written in base sixteen. -/
def hexNumber? (ds : List Char) : Option Nat :=
  ds.foldlM (fun n d => (hexDigit? d).map (n * 16 + ·)) 0

/-- The four digits of a code unit. -/
def IsUnit (n : Nat) (ds : List Char) : Prop := ds.length = 4 ∧ hexNumber? ds = some n

/-- A character that needs no escape. -/
def IsPlain (c : Char) : Prop := ' ' ≤ c ∧ c ≠ '\x22' ∧ c ≠ '\\'

/-- The spellings of a text between its quotes. -/
inductive Spelling : List Char → List Char → Prop
  | nil : Spelling [] []
  | plain {c : Char} {s cs : List Char} : IsPlain c → Spelling s cs → Spelling (c :: s) (c :: cs)
  | letter {l c : Char} {s cs : List Char} :
      escaped? l = some c → Spelling s cs → Spelling (c :: s) ('\\' :: l :: cs)
  | unit {c : Char} {ds s cs : List Char} :
      IsUnit c.toNat ds → Spelling s cs → Spelling (c :: s) ('\\' :: 'u' :: (ds ++ cs))
  | pair {c : Char} {high low : Nat} {ds es s cs : List Char} :
      0xd800 ≤ high → high < 0xdc00 → 0xdc00 ≤ low → low < 0xe000 →
      c.toNat = 0x10000 + (high - 0xd800) * 0x400 + (low - 0xdc00) →
      IsUnit high ds → IsUnit low es → Spelling s cs →
      Spelling (c :: s) ('\\' :: 'u' :: (ds ++ '\\' :: 'u' :: (es ++ cs)))

/-- What may stand between quotes, whether or not its surrogates pair up. -/
inductive Quotable : List Char → Prop
  | nil : Quotable []
  | plain {c : Char} {cs : List Char} : IsPlain c → Quotable cs → Quotable (c :: cs)
  | letter {l c : Char} {cs : List Char} :
      escaped? l = some c → Quotable cs → Quotable ('\\' :: l :: cs)
  | unit {n : Nat} {ds cs : List Char} :
      IsUnit n ds → Quotable cs → Quotable ('\\' :: 'u' :: (ds ++ cs))

/-! ## Tokens and documents -/

/-- The spellings of a token. Only strings have more than one. -/
def Token.Spelled : Token → List Char → Prop
  | .number lexeme, cs => IsNumber cs ∧ cs = lexeme.toList
  | .string (some s), cs => ∃ inner, Spelling s.toList inner ∧ cs = '\x22' :: (inner ++ ['\x22'])
  | .string none, cs =>
    ∃ inner, Quotable inner ∧ (∀ s, ¬ Spelling s inner) ∧ cs = '\x22' :: (inner ++ ['\x22'])
  | t, cs => cs = t.written.toList

/-- The texts that hold a row of tokens. -/
inductive Layout : List Token → List Char → Prop
  | nil : Layout [] []
  | blank {c : Char} {ts : List Token} {cs : List Char} :
      IsBlank c → Layout ts cs → Layout ts (c :: cs)
  | token {t : Token} {ts : List Token} {cs ds : List Char} :
      t.Spelled cs → Layout ts ds → Layout (t :: ts) (cs ++ ds)

/-- The text holds the document. -/
def Spelled (v : Json) (text : String) : Prop := Layout v.tokens text.toList

end Monkey.Json
