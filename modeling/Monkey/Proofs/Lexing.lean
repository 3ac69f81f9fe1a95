import Mathlib.Data.List.Basic
import Monkey.Proofs.Lexemes
import Monkey.Syntax.Lexeme
import Monkey.Syntax.Occurrences

/-!
# Monkey — the lexemes of a text

Where no two words stand side by side and names are identifiers, a text is the text of one
row of lexemes only (`Lexeme.Spaced.eq_of_chars_eq`), by induction over the row: a word ends
before the first character that is none of a word, a string literal at its second quote, and
every other lexeme is one character. The rows of trees are such rows (`Expr.spaced`), and
their texts are the canonical texts (`Expr.chars_lexemes`).
-/

namespace Monkey

/-! ## Runs -/

/-- A run of characters of a kind ends where the first of another kind stands. -/
theorem run_eq {P : Char → Prop} {xs ys r r' : List Char} (hxs : ∀ c ∈ xs, P c)
    (hys : ∀ c ∈ ys, P c) (hr : ∀ c ∈ r.head?, ¬ P c) (hr' : ∀ c ∈ r'.head?, ¬ P c)
    (h : xs ++ r = ys ++ r') : xs = ys ∧ r = r' := by
  induction xs generalizing ys with
  | nil =>
    cases ys with
    | nil => exact ⟨rfl, h⟩
    | cons y ys =>
      rw [List.nil_append] at h
      exact absurd (hys y List.mem_cons_self) (hr y (by rw [h]; rfl))
  | cons x xs ih =>
    cases ys with
    | nil =>
      rw [List.nil_append] at h
      exact absurd (hxs x List.mem_cons_self) (hr' x (by rw [← h]; rfl))
    | cons y ys =>
      obtain ⟨rfl, htail⟩ := List.cons_eq_cons.1 h
      obtain ⟨rfl, hrest⟩ := ih (fun c hc => hxs c (List.mem_cons_of_mem _ hc))
        (fun c hc => hys c (List.mem_cons_of_mem _ hc)) htail
      exact ⟨rfl, hrest⟩

namespace Text

open Json (hexDigit? hexNumber? hexNumber?_append)

/-! ## Quoted strings -/

theorem hexDigit?_digitChar : ∀ d < 16, hexDigit? (Nat.digitChar d) = some d := by decide

/-- The last hexadecimal digit of a number that has several is its remainder. -/
theorem toDigits_concat {n : Nat} (h : 16 ≤ n) :
    Nat.toDigits 16 n = Nat.toDigits 16 (n / 16) ++ [Nat.digitChar (n % 16)] := by
  rw [Nat.toDigits_eq_if (by decide), if_neg (Nat.not_lt.2 h)]

/-- A number is read back from its hexadecimal digits. -/
theorem hexNumber?_toDigits (n : Nat) : hexNumber? (Nat.toDigits 16 n) = some n := by
  induction n using Nat.strongRecOn with
  | ind n ih =>
    by_cases h : n < 16
    · rw [Nat.toDigits_of_lt_base h]
      simp [hexNumber?, hexDigit?_digitChar n h]
    · have hlast := hexDigit?_digitChar (n % 16) (Nat.mod_lt n (by decide))
      rw [toDigits_concat (Nat.not_lt.1 h), hexNumber?_append (ih (n / 16) (by omega)), hlast,
        Option.map_some, Nat.div_add_mod']

/-- So the brace behind the digits of an escape, which is no digit, ends them. -/
theorem isSome_of_mem_toDigits {n : Nat} : ∀ d ∈ Nat.toDigits 16 n, (hexDigit? d).isSome := by
  induction n using Nat.strongRecOn with
  | ind n ih =>
    intro d hd
    by_cases h : n < 16
    · rw [Nat.toDigits_of_lt_base h, List.mem_singleton] at hd
      rw [hd, hexDigit?_digitChar n h]
      rfl
    · rw [toDigits_concat (Nat.not_lt.1 h), List.mem_append, List.mem_singleton] at hd
      rcases hd with hd | rfl
      · exact ih (n / 16) (by omega) d hd
      · rw [hexDigit?_digitChar _ (Nat.mod_lt n (by decide))]
        rfl

/-- The characters with escapes of two characters, and the letters of these. -/
def shortEscapes : List (Char × Char) :=
  [('\x22', '\x22'), ('\\', '\\'), ('\n', 'n'), ('\r', 'r'), ('\t', 't'), ('\x00', '0')]

/-- The kinds of characters between quotes. -/
theorem quoteChar_cases (c : Char) :
    (∃ l, (c, l) ∈ shortEscapes ∧ (quoteChar c).toList = ['\\', l]) ∨
    (c ≠ '\x22' ∧ c ≠ '\\' ∧ (quoteChar c).toList = [c]) ∨
    (quoteChar c).toList = '\\' :: 'u' :: '\x7b' :: (Nat.toDigits 16 c.toNat ++ ['\x7d']) := by
  unfold quoteChar
  split
  · next h => exact .inl ⟨'\x22', by simp [h, shortEscapes], rfl⟩
  split
  · next h => exact .inl ⟨'\\', by simp [h, shortEscapes], rfl⟩
  split
  · next h => exact .inl ⟨'n', by simp [h, shortEscapes], rfl⟩
  split
  · next h => exact .inl ⟨'r', by simp [h, shortEscapes], rfl⟩
  split
  · next h => exact .inl ⟨'t', by simp [h, shortEscapes], rfl⟩
  split
  · next h =>
    obtain rfl : c = '\x00' := Char.toNat_inj.1 h
    exact .inl ⟨'0', by simp [shortEscapes], rfl⟩
  split
  · next hquote hslash _ _ _ _ _ =>
    exact .inr (.inl ⟨hquote, hslash, String.toList_singleton c⟩)
  · exact .inr (.inr (by simp [hex]))

theorem shortEscapes_injective : ∀ p ∈ shortEscapes, ∀ q ∈ shortEscapes, p.2 = q.2 → p.1 = q.1 := by
  decide

/-- The letter of the escape that gives a number is that of no other. -/
theorem shortEscapes_ne_u : ∀ p ∈ shortEscapes, p.2 ≠ 'u' := by decide

/-- What a character is between quotes tells the character, and where it ends. -/
theorem quoteChar_eq {c d : Char} {r r' : List Char}
    (h : (quoteChar c).toList ++ r = (quoteChar d).toList ++ r') : c = d ∧ r = r' := by
  rcases quoteChar_cases c with ⟨l, hl, hc⟩ | ⟨hquote, hslash, hc⟩ | hc <;>
    rcases quoteChar_cases d with ⟨m, hm, hd⟩ | ⟨hquote', hslash', hd⟩ | hd <;>
    rw [hc, hd] at h <;>
    simp only [List.cons_append, List.append_assoc, List.nil_append, List.cons.injEq, true_and] at h
  · obtain ⟨rfl, rfl⟩ := h
    exact ⟨shortEscapes_injective _ hl _ hm rfl, rfl⟩
  · exact absurd h.1.symm hslash'
  · exact absurd h.1 (shortEscapes_ne_u _ hl)
  · exact absurd h.1 hslash
  · exact h
  · exact absurd h.1 hslash
  · exact absurd h.1.symm (shortEscapes_ne_u _ hm)
  · exact absurd h.1.symm hslash'
  · have hend (r : List Char) : ∀ c ∈ ('\x7d' :: r).head?, ¬ (hexDigit? c).isSome := by
      rintro _ ⟨⟩
      decide
    -- digits end at the brace, and tell the character
    obtain ⟨hdigits, hrest⟩ := run_eq isSome_of_mem_toDigits isSome_of_mem_toDigits (hend r)
      (hend r') h
    have hnat : some c.toNat = some d.toNat := by
      rw [← hexNumber?_toDigits, ← hexNumber?_toDigits, hdigits]
    exact ⟨Char.toNat_inj.1 (Option.some.inj hnat), List.tail_eq_of_cons_eq hrest⟩

/-- A quote in a string is escaped, so none but the last one stands for itself. -/
theorem quoteChar_ne_quote {c : Char} {r r' : List Char} :
    (quoteChar c).toList ++ r ≠ '\x22' :: r' := by
  intro h
  rcases quoteChar_cases c with ⟨l, hl, hc⟩ | ⟨hquote, -, hc⟩ | hc <;> rw [hc] at h <;> simp at h
  exact hquote h.1

/-- A string in quotes, character by character. -/
theorem quote_toList (s : String) : (quote s).toList =
    '\x22' :: (s.toList.flatMap (fun c => (quoteChar c).toList) ++ ['\x22']) := by
  simp [quote, String.toList_join, List.flatMap_map]

/-- A string in quotes ends at its second quote, and tells the string. -/
theorem quote_eq {s t : String} {r r' : List Char}
    (h : (quote s).toList ++ r = (quote t).toList ++ r') : s = t ∧ r = r' := by
  have hchars : ∀ cs ds : List Char, (cs.flatMap fun c => (quoteChar c).toList) ++ '\x22' :: r =
      (ds.flatMap fun c => (quoteChar c).toList) ++ '\x22' :: r' → cs = ds ∧ r = r' := by
    intro cs
    induction cs with
    | nil =>
      rintro (_ | ⟨d, ds⟩) h
      · exact ⟨rfl, List.tail_eq_of_cons_eq h⟩
      · rw [List.flatMap_cons, List.append_assoc] at h
        exact absurd h.symm quoteChar_ne_quote
    | cons c cs ih =>
      rintro (_ | ⟨d, ds⟩) h
      · rw [List.flatMap_cons, List.append_assoc] at h
        exact absurd h quoteChar_ne_quote
      · rw [List.flatMap_cons, List.flatMap_cons, List.append_assoc, List.append_assoc] at h
        obtain ⟨rfl, hrest⟩ := quoteChar_eq h
        obtain ⟨rfl, hr⟩ := ih ds hrest
        exact ⟨rfl, hr⟩
  rw [quote_toList, quote_toList] at h
  obtain ⟨hst, hr⟩ := hchars s.toList t.toList (by simpa using h)
  exact ⟨String.toList_inj.1 hst, hr⟩

end Text

namespace Lexeme

/-! ## Words -/

/-- The lexeme is a word. -/
def IsWord : Lexeme → Prop
  | keyword _ | name _ | number _ => True
  | literal _ | mark _ => False

/-- The lexeme is one that its text tells. -/
def Proper : Lexeme → Prop
  | keyword w => w ∈ keywords
  | name x => IsIdentifier x
  | number _ | literal _ => True
  | mark c => ¬ IsWordChar c ∧ c ≠ '\x22'

instance : (t : Lexeme) → Decidable t.Proper
  | keyword w => inferInstanceAs (Decidable (w ∈ keywords))
  | name x => inferInstanceAs (Decidable (IsIdentifier x))
  | number _ | literal _ => inferInstanceAs (Decidable True)
  | mark _ => inferInstanceAs (Decidable (_ ∧ _))

variable {t u : Lexeme}

theorem text_number (n : Nat) : (number n).text.toList = Nat.toDigits 10 n := by
  simp [text]

theorem isBareWord_of_mem_keywords : ∀ w ∈ keywords, IsBareWord w := by decide

/-- A word has a text of characters of words. -/
theorem IsWord.text (hword : t.IsWord) (ht : t.Proper) :
    t.text.toList ≠ [] ∧ ∀ c ∈ t.text.toList, IsWordChar c := by
  cases t with
  | keyword w =>
    have hw : IsBareWord w := isBareWord_of_mem_keywords w ht
    exact ⟨hw.nonempty, hw.word⟩
  | name x => exact ⟨ht.nonempty, ht.word⟩
  | number n =>
    rw [text_number]
    refine ⟨Nat.toDigits_ne_nil, fun c hc => .inl ?_⟩
    have hdigit : c.isDigit := Nat.isDigit_of_mem_toDigits (by omega) (by omega) hc
    simp [Char.isAlphanum, hdigit]
  | literal | mark => cases hword

/-- Among words, the numbers are those that begin with a digit. -/
theorem ne_text_number {w : String} (hw : IsBareWord w) (n : Nat) : w ≠ (number n).text := by
  intro h
  have hlist : w.toList = Nat.toDigits 10 n := by rw [h, text_number]
  obtain ⟨d, ds, hds⟩ := List.exists_cons_of_ne_nil (Nat.toDigits_ne_nil (n := n) (b := 10))
  have hmem : d ∈ Nat.toDigits 10 n := by
    rw [hds]
    exact List.mem_cons_self
  have hdigit : d.isDigit := Nat.isDigit_of_mem_toDigits (by omega) (by omega) hmem
  exact hw.first d (by rw [hlist, hds]; rfl) hdigit

/-- The text of a word tells it. -/
theorem IsWord.eq_of_text_eq (hword : t.IsWord) (hword' : u.IsWord) (ht : t.Proper)
    (hu : u.Proper) (h : t.text = u.text) : t = u := by
  cases t with
  | keyword w =>
    cases u with
    | keyword w' => exact congrArg keyword h
    | name x =>
      obtain rfl : w = x := h
      exact absurd ht hu.not_keyword
    | number n => exact absurd h (ne_text_number (isBareWord_of_mem_keywords w ht) n)
    | literal | mark => cases hword'
  | name x =>
    cases u with
    | keyword w =>
      obtain rfl : x = w := h
      exact absurd hu ht.not_keyword
    | name y => exact congrArg name h
    | number n => exact absurd h (ne_text_number ht.toIsBareWord n)
    | literal | mark => cases hword'
  | number n =>
    cases u with
    | keyword w => exact absurd h.symm (ne_text_number (isBareWord_of_mem_keywords w hu) n)
    | name y => exact absurd h.symm (ne_text_number hu.toIsBareWord n)
    | number m =>
      have hdigits : Nat.toDigits 10 n = Nat.toDigits 10 m := by
        rw [← text_number, ← text_number, h]
      have hn : n = m := by
        rw [← Nat.ofDigitChars_ten_toDigits (n := n), hdigits, Nat.ofDigitChars_ten_toDigits]
      exact congrArg number hn
    | literal | mark => cases hword'
  | literal | mark => cases hword

/-! ## Rows -/

/-- No two words of the row stand side by side, and every lexeme is one that its text tells. -/
def Spaced : List Lexeme → Prop
  | [] => True
  | t :: ts => t.Proper ∧ (t.IsWord → ∀ u ∈ ts.head?, ¬ u.IsWord) ∧ Spaced ts

@[simp] theorem chars_nil : chars [] = [] := rfl

@[simp] theorem chars_keyword (w : String) (ts : List Lexeme) :
    chars (keyword w :: ts) = w.toList ++ chars ts := rfl

@[simp] theorem chars_name (x : String) (ts : List Lexeme) :
    chars (name x :: ts) = x.toList ++ chars ts := rfl

@[simp] theorem chars_mark (c : Char) (ts : List Lexeme) :
    chars (mark c :: ts) = c :: chars ts := by
  rw [chars, List.flatMap_cons, text, String.toList_singleton]
  rfl

theorem chars_literal (s : String) (ts : List Lexeme) : chars (literal s :: ts) =
    '\x22' :: ((s.toList.flatMap fun c => (Text.quoteChar c).toList) ++ ['\x22'] ++ chars ts) := by
  rw [chars, List.flatMap_cons, text, Text.quote_toList]
  rfl

/-- The row begins with a character of a word only if it begins with a word. -/
theorem head?_chars {ts : List Lexeme} (hts : Spaced ts) (hfirst : ∀ u ∈ ts.head?, ¬ u.IsWord) :
    ∀ c ∈ (chars ts).head?, ¬ IsWordChar c := by
  cases ts with
  | nil => exact nofun
  | cons t ts =>
    cases t with
    | keyword w => exact absurd trivial (hfirst _ rfl)
    | name x => exact absurd trivial (hfirst _ rfl)
    | number n => exact absurd trivial (hfirst _ rfl)
    | literal s =>
      rw [chars_literal]
      rintro _ ⟨⟩
      decide
    | mark c =>
      rw [chars_mark]
      rintro _ ⟨⟩
      exact hts.1.1

/-- Every lexeme has characters. -/
theorem Proper.text_ne_nil (ht : t.Proper) : t.text.toList ≠ [] := by
  cases t with
  | keyword w => exact (IsWord.text (t := keyword w) trivial ht).1
  | name x => exact (IsWord.text (t := name x) trivial ht).1
  | number n => exact (IsWord.text (t := number n) trivial ht).1
  | literal s =>
    rw [text, Text.quote_toList]
    exact nofun
  | mark c =>
    rw [text, String.toList_singleton]
    exact nofun

/-- So only the empty row has none. -/
theorem Spaced.chars_cons_ne_nil {ts : List Lexeme} (h : Spaced (t :: ts)) :
    chars (t :: ts) ≠ [] := by
  intro hnil
  rw [chars, List.flatMap_cons, List.append_eq_nil_iff] at hnil
  exact h.1.text_ne_nil hnil.1

/-- A row that begins with a word has no text in common with one that does not. -/
theorem Spaced.chars_ne {ts us : List Lexeme} (ht : Spaced (t :: ts)) (hu : Spaced (u :: us))
    (hword : t.IsWord) (hother : ¬ u.IsWord) : chars (t :: ts) ≠ chars (u :: us) := by
  intro h
  obtain ⟨hne, hall⟩ := hword.text ht.1
  obtain ⟨c, cs, hcs⟩ := List.exists_cons_of_ne_nil hne
  have hfirst : c ∈ (chars (u :: us)).head? := by
    rw [← h, chars, List.flatMap_cons, hcs]
    rfl
  have hnot := head?_chars hu (by rintro _ ⟨⟩; exact hother) c hfirst
  exact hnot (hall c (by rw [hcs]; exact List.mem_cons_self))

/-- The characters of a spaced row tell the first lexeme. -/
theorem Spaced.first_eq {ts us : List Lexeme} (ht : Spaced (t :: ts)) (hu : Spaced (u :: us))
    (h : chars (t :: ts) = chars (u :: us)) : t = u ∧ chars ts = chars us := by
  by_cases hword : t.IsWord
  · by_cases hword' : u.IsWord
    -- both words end before the first character that is none of a word
    · obtain ⟨htext, hrest⟩ := run_eq (hword.text ht.1).2 (hword'.text hu.1).2
        (head?_chars ht.2.2 (ht.2.1 hword)) (head?_chars hu.2.2 (hu.2.1 hword')) h
      exact ⟨hword.eq_of_text_eq hword' ht.1 hu.1 (String.toList_inj.1 htext), hrest⟩
    · exact absurd h (ht.chars_ne hu hword hword')
  by_cases hword' : u.IsWord
  · exact absurd h.symm (hu.chars_ne ht hword' hword)
  cases t with
  | keyword | name | number => exact absurd trivial hword
  | literal s =>
    cases u with
    | keyword | name | number => exact absurd trivial hword'
    | literal s' =>
      obtain ⟨rfl, hrest⟩ := Text.quote_eq h
      exact ⟨rfl, hrest⟩
    | mark c =>
      rw [chars_literal, chars_mark] at h
      exact absurd (List.cons.inj h).1.symm hu.1.2
  | mark c =>
    cases u with
    | keyword | name | number => exact absurd trivial hword'
    | literal s =>
      rw [chars_literal, chars_mark] at h
      exact absurd (List.cons.inj h).1 ht.1.2
    | mark c' =>
      rw [chars_mark, chars_mark] at h
      obtain ⟨rfl, hrest⟩ := List.cons.inj h
      exact ⟨rfl, hrest⟩

/-- The characters of a spaced row tell the row. -/
theorem Spaced.eq_of_chars_eq {ts us : List Lexeme} (hts : Spaced ts) (hus : Spaced us)
    (h : chars ts = chars us) : ts = us := by
  induction ts generalizing us with
  | nil =>
    cases us with
    | nil => rfl
    | cons u us => exact absurd h.symm hus.chars_cons_ne_nil
  | cons t ts ih =>
    cases us with
    | nil => exact absurd h hts.chars_cons_ne_nil
    | cons u us =>
      obtain ⟨rfl, hrest⟩ := hts.first_eq hus h
      rw [ih hts.2.2 hus.2.2 hrest]

/-! ## The texts of rows -/

@[simp] theorem chars_append (ts us : List Lexeme) : chars (ts ++ us) = chars ts ++ chars us :=
  List.flatMap_append

@[simp] theorem chars_map_mark (cs : List Char) : chars (cs.map mark) = cs := by
  induction cs with
  | nil => rfl
  | cons c cs ih => rw [List.map_cons, chars_mark, ih]

/-- The characters of rows with a separator are those of the rows with those of the separator. -/
@[simp] theorem chars_intercalate (sep : List Lexeme) (rows : List (List Lexeme)) :
    chars (sep.intercalate rows) = (chars sep).intercalate (rows.map chars) := by
  induction rows with
  | nil => rfl
  | cons row rows ih =>
    cases rows with
    | nil => simp
    | cons row' rows =>
      rw [List.intercalate_cons_cons, chars_append, chars_append, ih]
      simp

end Lexeme

open Lexeme

variable {ι : Type}

/-- A minus sign and the digits of what is behind it are the text of a negative integer. -/
theorem chars_intLexemes (n : Int64) : chars (intLexemes n) = (intText n).toList := by
  have htext : intText n = n.toInt.repr := rfl
  rw [htext, Int.repr_eq_if, intLexemes]
  split
  · next h =>
    have habs : (-n.toInt).toNat = n.toInt.natAbs := by omega
    rw [if_neg (Int.not_le.2 h), habs]
    simp [chars, text]
  · next h =>
    have habs : n.toInt.toNat = n.toInt.natAbs := by omega
    rw [if_pos (Int.not_lt.1 h), habs]
    simp [chars, text]

/-- The text of a block in braces. -/
theorem chars_braced (rows : List (List Lexeme)) : chars (braced rows) =
    " \x7b ".toList ++ [' '].intercalate (rows.map chars) ++ " \x7d".toList := by
  simp [braced]

mutual

/-- The row of an expression has the characters of its text; the rows and the texts are laid
down alike, so this is by the cases of the tree. -/
theorem Expr.chars_lexemes : ∀ e : Expr ι, chars e.lexemes = e.source.toList
  | .ident x => by simp [Expr.lexemes, Expr.source]
  | .int n => chars_intLexemes n
  | .str s => by simp [Expr.lexemes, Expr.source, chars, text]
  | .bool b => by simp [Expr.lexemes, Expr.source]
  | .array es => by
    simp [Expr.lexemes, Expr.source, listed, Expr.chars_rows es]
  | .unary op e => by
    simp [Expr.lexemes, Expr.source, e.chars_lexemes]
  | .binary op l r => by
    simp [Expr.lexemes, Expr.source, l.chars_lexemes, r.chars_lexemes]
  | .cond c yes none => by
    simp [Expr.lexemes, Expr.source, c.chars_lexemes, chars_braced, Stmt.chars_rows yes]
  | .cond c yes (some no) => by
    simp [Expr.lexemes, Expr.source, c.chars_lexemes, chars_braced, Stmt.chars_rows yes,
      Stmt.chars_rows no]
  | .fn f => f.chars_lexemes
  | .call f es => by
    simp [Expr.lexemes, Expr.source, listed, f.chars_lexemes, Expr.chars_rows es]
  | .index l i => by
    simp [Expr.lexemes, Expr.source, l.chars_lexemes, i.chars_lexemes]
termination_by structural e => e

theorem Expr.chars_rows : ∀ es : List (Expr ι),
    (Expr.rows es).map chars = (Expr.sources es).map String.toList
  | [] => rfl
  | e :: es => by
    rw [Expr.rows, Expr.sources, List.map_cons, List.map_cons, e.chars_lexemes, Expr.chars_rows es]
termination_by structural es => es

/-- The same of statements. -/
theorem Stmt.chars_lexemes : ∀ s : Stmt ι, chars s.lexemes = s.source.toList
  | .bind x e => by simp [Stmt.lexemes, Stmt.source, e.chars_lexemes]
  | .ret e => by simp [Stmt.lexemes, Stmt.source, e.chars_lexemes]
  | .expr e => e.chars_lexemes
termination_by structural s => s

theorem Stmt.chars_rows : ∀ ss : List (Stmt ι),
    (Stmt.rows ss).map chars = (Stmt.sources ss).map String.toList
  | [] => rfl
  | s :: ss => by
    rw [Stmt.rows, Stmt.sources, List.map_cons, List.map_cons, s.chars_lexemes, Stmt.chars_rows ss]
termination_by structural ss => ss

theorem FnLiteral.chars_lexemes : ∀ f : FnLiteral ι, chars f.lexemes = f.source.toList
  | ⟨_, ps, body⟩ => by
    have hparameter : (chars ∘ fun p : String => [name p]) = String.toList := by
      funext p
      simp
    simp [hparameter, FnLiteral.lexemes, FnLiteral.source, listed, chars_braced,
      Stmt.chars_rows body]
termination_by structural f => f

end

theorem Block.chars_lexemes (b : Block ι) : chars b.lexemes = (Block.source b).toList := by
  simp [Block.lexemes, Block.source, Stmt.chars_rows b]

/-- And of programs, whose statements are on lines of their own. -/
theorem Program.chars_lexemes (p : Program ι) : chars p.lexemes = p.source.toList := by
  simp [Program.lexemes, Program.source, Stmt.chars_rows p.statements]

/-! ## The rows of trees -/

namespace Lexeme

theorem spaced_mark {c : Char} {ts : List Lexeme} :
    Spaced (mark c :: ts) ↔ (mark c).Proper ∧ Spaced ts := by
  simp [Spaced, IsWord]

/-- A character that is no part of a word keeps the lexemes around it apart. -/
theorem spaced_append_mark {c : Char} {ts us : List Lexeme} :
    Spaced (ts ++ mark c :: us) ↔ Spaced ts ∧ (mark c).Proper ∧ Spaced us := by
  induction ts with
  | nil => simp [Spaced, IsWord]
  | cons t ts ih =>
    have hhead : (∀ u ∈ (ts ++ mark c :: us).head?, ¬ u.IsWord) ↔ ∀ u ∈ ts.head?, ¬ u.IsWord := by
      cases ts with
      | nil => simp [IsWord]
      | cons => rfl
    rw [List.cons_append, Spaced, Spaced, hhead, ih, and_assoc, and_assoc]

theorem spaced_cons_mark {c : Char} {t : Lexeme} {us : List Lexeme} :
    Spaced (t :: mark c :: us) ↔ t.Proper ∧ (mark c).Proper ∧ Spaced us := by
  have h : Spaced ([t] ++ mark c :: us) ↔ Spaced [t] ∧ (mark c).Proper ∧ Spaced us :=
    spaced_append_mark
  simpa [Spaced] using h

theorem spaced_singleton {t : Lexeme} : Spaced [t] ↔ t.Proper := by
  simp [Spaced]

/-- Rows behind separators that begin with such a character are kept apart by them. -/
theorem spaced_intercalate {c : Char} {sep : List Lexeme} {rows : List (List Lexeme)}
    (hsep : ∀ ts, Spaced ts → Spaced (sep ++ ts)) (hc : (mark c).Proper)
    (hrows : ∀ row ∈ rows, Spaced row) : Spaced ((mark c :: sep).intercalate rows) := by
  induction rows with
  | nil => exact trivial
  | cons row rows ih =>
    obtain ⟨hrow, hrest⟩ := List.forall_mem_cons.1 hrows
    cases rows with
    | nil => simpa using hrow
    | cons row' rows =>
      rw [List.intercalate_cons_cons, List.append_assoc, List.cons_append, spaced_append_mark]
      exact ⟨hrow, hc, hsep _ (ih hrest)⟩

/-- So are those of a list, by commas. -/
theorem spaced_listed {rows : List (List Lexeme)} (hrows : ∀ row ∈ rows, Spaced row) :
    Spaced (listed rows) := by
  have hcomma : (mark ',').Proper := ⟨by decide, by decide⟩
  have hspace : (mark ' ').Proper := ⟨by decide, by decide⟩
  exact spaced_intercalate (fun ts hts => spaced_mark.2 ⟨hspace, hts⟩) hcomma hrows

theorem spaced_lines {c : Char} (hc : (mark c).Proper) {rows : List (List Lexeme)}
    (hrows : ∀ row ∈ rows, Spaced row) : Spaced ([mark c].intercalate rows) :=
  spaced_intercalate (fun _ => id) hc hrows

/-- A block in braces can stand behind every row. -/
theorem spaced_append_braced {ts : List Lexeme} {rows : List (List Lexeme)} (hts : Spaced ts)
    (hrows : ∀ row ∈ rows, Spaced row) : Spaced (ts ++ braced rows) := by
  have hblock : Spaced ([mark ' '].intercalate rows) := spaced_lines (by decide) hrows
  rw [braced, List.append_assoc]
  simp only [List.cons_append, List.nil_append, spaced_append_mark, spaced_mark]
  exact ⟨hts, by decide, by decide, by decide, hblock, by decide, by decide, trivial⟩

theorem spaced_unary (op : UnaryOp) {ts : List Lexeme} (hts : Spaced ts) :
    Spaced (op.symbol.toList.map mark ++ ts) := by
  cases op <;> exact spaced_mark.2 ⟨by decide, hts⟩

/-- An operator consists of such characters, one or two. -/
theorem spaced_binary (op : BinaryOp) {ts : List Lexeme} (hts : Spaced ts) :
    Spaced (op.symbol.toList.map mark ++ ts) := by
  cases op with
  | add | sub | mul | div | lt | gt => exact spaced_mark.2 ⟨by decide, hts⟩
  | eq | ne => exact spaced_mark.2 ⟨by decide, spaced_mark.2 ⟨by decide, hts⟩⟩

/-- Digits stand alone or behind a minus sign. -/
theorem spaced_intLexemes (n : Int64) : Spaced (intLexemes n) := by
  unfold intLexemes
  split
  · exact spaced_mark.2 ⟨by decide, spaced_singleton.2 trivial⟩
  · exact spaced_singleton.2 trivial

end Lexeme

mutual

/-- The row of an expression has no two words side by side: every form has blanks or marks
between its parts. -/
theorem Expr.spaced : ∀ e : Expr ι, (∀ o ∈ e.occurrences, IsIdentifier o.name) → Spaced e.lexemes
  | .ident x, h => spaced_singleton.2 (h (.identifier x) List.mem_cons_self)
  | .int n, _ => spaced_intLexemes n
  | .str s, _ => spaced_singleton.2 trivial
  | .bool b, _ => by
    have hkeyword : boolText b ∈ keywords := by cases b <;> decide
    exact spaced_singleton.2 hkeyword
  | .array es, h => by
    have hes := Expr.spaced_rows es h
    exact spaced_mark.2 ⟨by decide, spaced_append_mark.2 ⟨spaced_listed hes, by decide, trivial⟩⟩
  | .unary op e, h => by
    have he := e.spaced h
    rw [Expr.lexemes, List.append_assoc]
    exact spaced_mark.2 ⟨by decide, spaced_unary op (spaced_append_mark.2 ⟨he, by decide, trivial⟩)⟩
  | .binary op l r, h => by
    rw [Expr.occurrences, List.forall_mem_append] at h
    have hl := l.spaced h.1
    have hr := r.spaced h.2
    refine spaced_mark.2 ⟨by decide, spaced_append_mark.2 ⟨hl, by decide, spaced_binary op ?_⟩⟩
    exact spaced_mark.2 ⟨by decide, spaced_append_mark.2 ⟨hr, by decide, trivial⟩⟩
  | .cond c yes none, h => by
    rw [Expr.occurrences, List.forall_mem_append] at h
    have hc := c.spaced h.1
    have hyes := Stmt.spaced_rows yes h.2
    exact spaced_cons_mark.2 ⟨by decide, by decide, spaced_append_braced hc hyes⟩
  | .cond c yes (some no), h => by
    rw [Expr.occurrences, List.forall_mem_append, List.forall_mem_append] at h
    have hc := c.spaced h.1
    have hyes := Stmt.spaced_rows yes h.2.1
    have hno := Stmt.spaced_rows no h.2.2
    have helse : Spaced [keyword "else"] := spaced_singleton.2 (by decide)
    refine spaced_cons_mark.2 ⟨by decide, by decide, ?_⟩
    exact spaced_append_mark.2
      ⟨spaced_append_braced hc hyes, by decide, spaced_append_braced helse hno⟩
  | .fn f, h => f.spaced h
  | .call f es, h => by
    rw [Expr.occurrences, List.forall_mem_append] at h
    have hf := f.spaced h.1
    have hes := Expr.spaced_rows es h.2
    refine spaced_append_mark.2 ⟨hf, by decide, ?_⟩
    exact spaced_append_mark.2 ⟨spaced_listed hes, by decide, trivial⟩
  | .index l i, h => by
    rw [Expr.occurrences, List.forall_mem_append] at h
    have hl := l.spaced h.1
    have hi := i.spaced h.2
    refine spaced_mark.2 ⟨by decide, spaced_append_mark.2 ⟨hl, by decide, ?_⟩⟩
    exact spaced_append_mark.2 ⟨hi, by decide, spaced_mark.2 ⟨by decide, trivial⟩⟩
termination_by structural e => e

theorem Expr.spaced_rows : ∀ es : List (Expr ι),
    (∀ o ∈ Expr.occurrencesList es, IsIdentifier o.name) → ∀ row ∈ Expr.rows es, Spaced row
  | [], _ => nofun
  | e :: es, h => by
    rw [Expr.occurrencesList, List.forall_mem_append] at h
    exact List.forall_mem_cons.2 ⟨e.spaced h.1, Expr.spaced_rows es h.2⟩
termination_by structural es => es

/-- A name that is bound stands between blanks. -/
theorem Stmt.spaced : ∀ s : Stmt ι, (∀ o ∈ s.occurrences, IsIdentifier o.name) → Spaced s.lexemes
  | .bind x e, h => by
    obtain ⟨hx, he⟩ := List.forall_mem_cons.1 h
    have hvalue := e.spaced he
    refine spaced_cons_mark.2 ⟨by decide, by decide, spaced_cons_mark.2 ⟨hx, by decide, ?_⟩⟩
    refine spaced_mark.2 ⟨by decide, spaced_mark.2 ⟨by decide, ?_⟩⟩
    exact spaced_append_mark.2 ⟨hvalue, by decide, trivial⟩
  | .ret e, h => by
    have he := e.spaced h
    refine spaced_cons_mark.2 ⟨by decide, by decide, ?_⟩
    exact spaced_append_mark.2 ⟨he, by decide, trivial⟩
  | .expr e, h => e.spaced h
termination_by structural s => s

theorem Stmt.spaced_rows : ∀ ss : List (Stmt ι),
    (∀ o ∈ Stmt.occurrencesList ss, IsIdentifier o.name) → ∀ row ∈ Stmt.rows ss, Spaced row
  | [], _ => nofun
  | s :: ss, h => by
    rw [Stmt.occurrencesList, List.forall_mem_append] at h
    exact List.forall_mem_cons.2 ⟨s.spaced h.1, Stmt.spaced_rows ss h.2⟩
termination_by structural ss => ss

/-- Parameters are names, and stand between commas. -/
theorem FnLiteral.spaced : ∀ f : FnLiteral ι, (∀ o ∈ f.occurrences, IsIdentifier o.name) →
    Spaced f.lexemes
  | ⟨_, ps, body⟩, h => by
    rw [FnLiteral.occurrences, List.forall_mem_append] at h
    have hps : ∀ row ∈ ps.map fun p => [name p], Spaced row := by
      intro row hrow
      obtain ⟨p, hp, rfl⟩ := List.mem_map.1 hrow
      exact spaced_singleton.2 (h.1 (.parameter p) (List.mem_map_of_mem hp))
    have hbody := Stmt.spaced_rows body h.2
    refine spaced_cons_mark.2 ⟨by decide, by decide, ?_⟩
    refine spaced_append_mark.2 ⟨spaced_listed hps, by decide, ?_⟩
    have hnil : Spaced [] := trivial
    exact spaced_append_braced hnil hbody
termination_by structural f => f

end

theorem Block.spaced (b : Block ι) (h : ∀ o ∈ Stmt.occurrencesList b, IsIdentifier o.name) :
    Spaced (Block.lexemes b) :=
  spaced_lines (by decide) (Stmt.spaced_rows b h)

theorem Program.spaced (p : Program ι)
    (h : ∀ o ∈ Stmt.occurrencesList p.statements, IsIdentifier o.name) : Spaced p.lexemes :=
  spaced_lines (by decide) (Stmt.spaced_rows p.statements h)

end Monkey
