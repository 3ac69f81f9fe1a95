import Mathlib.Order.Lattice
import Monkey.Json.Nesting
import Monkey.Proofs.Writing

/-!
# Monkey — the nesting of a text is that of its document

White space, strings and the spelling of tokens do not matter to the brackets of a text: it
nests as deep as the document that it holds (`Json.Spelled.textNesting_eq`).
-/

namespace Monkey.Json

/-- The largest number of brackets that are open at once in a row of tokens, before which so
many are open. -/
def Token.deepest : Nat → List Token → Nat
  | opened, [] => opened
  | opened, .openBracket :: ts | opened, .openBrace :: ts => deepest (opened + 1) ts
  | opened, .closeBracket :: ts | opened, .closeBrace :: ts =>
    max opened (deepest (opened - 1) ts)
  | opened, _ :: ts => deepest opened ts

/-- What is open already counts. -/
theorem Token.le_deepest (opened : Nat) (ts : List Token) : opened ≤ Token.deepest opened ts := by
  fun_induction Token.deepest opened ts <;> omega

/-! ## Texts and tokens -/

/-- Brackets in a string are none. -/
theorem deepest_inside {c : Char} (hquote : c ≠ '\x22') (hslash : c ≠ '\\') (opened : Nat)
    (cs : List Char) : deepest .inside opened (c :: cs) = deepest .inside opened cs := by
  rw [deepest, if_neg hslash, if_neg hquote]

/-- Nor are the digits of an escape. -/
theorem deepest_unit {n opened : Nat} {ds cs : List Char} (h : IsUnit n ds) :
    deepest .inside opened (ds ++ cs) = deepest .inside opened cs := by
  have hdigit : ∀ d x, hexDigit? d = some x → d ≠ '\x22' ∧ d ≠ '\\' := by
    rintro d x hd
    constructor <;> rintro rfl <;> cases hd
  obtain ⟨a, b, c, d, w, x, y, z, rfl, ha, hb, hc, hd, -⟩ := h.exists_digits
  simp only [List.cons_append, List.nil_append]
  rw [deepest_inside (hdigit _ _ ha).1 (hdigit _ _ ha).2,
    deepest_inside (hdigit _ _ hb).1 (hdigit _ _ hb).2,
    deepest_inside (hdigit _ _ hc).1 (hdigit _ _ hc).2,
    deepest_inside (hdigit _ _ hd).1 (hdigit _ _ hd).2]

/-- What stands between quotes opens and closes nothing. -/
theorem Quotable.deepest {inner : List Char} (h : Quotable inner) (opened : Nat) (cs : List Char) :
    deepest .inside opened (inner ++ '\x22' :: cs) = deepest .outside opened cs := by
  induction h with
  | nil => rfl
  | plain hc _ ih => rw [List.cons_append, deepest_inside hc.2.1 hc.2.2, ih]
  | letter hl _ ih => exact ih
  | @unit n ds inner hn _ ih =>
    have hescape : Json.deepest .inside opened ('\\' :: 'u' :: (ds ++ inner) ++ '\x22' :: cs) =
        Json.deepest .inside opened (ds ++ (inner ++ '\x22' :: cs)) := by
      rw [List.cons_append, List.cons_append, List.append_assoc]
      rfl
    rw [hescape, deepest_unit hn, ih]

/-- A character that brackets and quotes are not among. -/
theorem deepest_outside {c : Char} (h : c.isDigit ∨ c = '-' ∨ c = '+' ∨ c = '.' ∨ c = 'e' ∨ c = 'E')
    (opened : Nat) (cs : List Char) :
    deepest .outside opened (c :: cs) = deepest .outside opened cs := by
  have hne : c ≠ '\x22' ∧ ¬ (c = '[' ∨ c = '\x7b') ∧ ¬ (c = ']' ∨ c = '\x7d') := by
    rcases h with h | rfl | rfl | rfl | rfl | rfl
    · refine ⟨?_, ?_, ?_⟩
      · rintro rfl
        cases h
      · rintro (rfl | rfl) <;> cases h
      · rintro (rfl | rfl) <;> cases h
    all_goals decide
  rw [deepest, if_neg hne.1, if_neg hne.2.1, if_neg hne.2.2]

theorem IsNumber.forall_mem {cs : List Char} (h : IsNumber cs) :
    ∀ c ∈ cs, c.isDigit ∨ c = '-' ∨ c = '+' ∨ c = '.' ∨ c = 'e' ∨ c = 'E' := by
  obtain ⟨minus, w, f, e, hminus, hw, hf, he, rfl⟩ := h
  intro c hc
  rcases List.mem_append.1 hc with hc | hc
  · rcases List.mem_append.1 hc with hc | hc
    · rcases List.mem_append.1 hc with hc | hc
      · rcases hminus with rfl | rfl
        · cases hc
        · exact .inr (.inl (List.mem_singleton.1 hc))
      · exact .inl (hw.isDigits.2 c hc)
    · rcases hf with rfl | ⟨ds, hds, rfl⟩
      · cases hc
      · rcases List.mem_cons.1 hc with rfl | hc
        · exact .inr (.inr (.inr (.inl rfl)))
        · exact .inl (hds.2 c hc)
  · rcases he with rfl | ⟨l, sign, ds, hl, hsign, hds, rfl⟩
    · cases hc
    · rcases List.mem_cons.1 hc with rfl | hc
      · exact .inr (.inr (.inr (.inr hl)))
      · rcases List.mem_append.1 hc with hc | hc
        · rcases hsign with rfl | rfl | rfl
          · cases hc
          · exact .inr (.inr (.inl (List.mem_singleton.1 hc)))
          · exact .inr (.inl (List.mem_singleton.1 hc))
        · exact .inl (hds.2 c hc)

/-- Nor has a number brackets. -/
theorem IsNumber.deepest {cs : List Char} (h : IsNumber cs) (opened : Nat) (ds : List Char) :
    Json.deepest .outside opened (cs ++ ds) = Json.deepest .outside opened ds := by
  have hall := h.forall_mem
  clear h
  induction cs with
  | nil => rfl
  | cons c cs ih =>
    rw [List.cons_append, deepest_outside (hall c List.mem_cons_self)]
    exact ih fun d hd => hall d (List.mem_cons_of_mem _ hd)

/-- The brackets of a layout are those of its tokens. -/
theorem Layout.deepest_eq {ts : List Token} {cs : List Char} (h : Layout ts cs) (opened : Nat) :
    deepest .outside opened cs = Token.deepest opened ts := by
  induction h generalizing opened with
  | nil => rfl
  | blank hc _ ih => rcases hc with rfl | rfl | rfl | rfl <;> exact ih opened
  | @token t ts cs ds ht _ ih =>
    cases t with
    | openBracket | openBrace =>
      cases ht
      exact ih (opened + 1)
    | closeBracket | closeBrace =>
      cases ht
      exact congrArg (max opened) (ih (opened - 1))
    | comma | colon | null =>
      cases ht
      exact ih opened
    | bool b => cases b <;> cases ht <;> exact ih opened
    | number lexeme =>
      rw [ht.1.deepest]
      exact ih opened
    | string text =>
      obtain ⟨items, inner, hrow, -, rfl⟩ := Token.spelled_string_iff.1 ht
      -- brackets between quotes do not count
      have hquote : deepest .outside opened ('\x22' :: (inner ++ ['\x22']) ++ ds) =
          deepest .inside opened (inner ++ '\x22' :: ds) := by
        rw [List.cons_append, List.append_assoc]
        rfl
      rw [hquote, hrow.quotable.deepest]
      exact ih opened

/-! ## Tokens and documents -/

/-- Behind a closing bracket one less is open. -/
theorem deepest_close {t : Token} (ht : t = .closeBracket ∨ t = .closeBrace) (opened : Nat)
    (ts : List Token) :
    Token.deepest (opened + 1) (t :: ts) = max (opened + 1) (Token.deepest opened ts) := by
  rcases ht with rfl | rfl <;> rfl

mutual

/-- The tokens of a document open as many brackets at once as the document nests; the cases
are those of the document. -/
theorem deepest_tokens : ∀ (v : Json) (opened : Nat) (ts : List Token),
    Token.deepest opened (v.tokens ++ ts) = max (opened + v.nesting) (Token.deepest opened ts)
  | null, opened, ts | bool _, opened, ts | number _, opened, ts | string _, opened, ts =>
    (max_eq_right (Token.le_deepest opened ts)).symm
  | array [], opened, ts => deepest_close (.inl rfl) opened ts
  | array (v :: vs), opened, ts => by
    rw [tokens]
    simp only [List.cons_append, List.append_assoc, List.nil_append]
    rw [Token.deepest, deepest_tokens v, deepest_itemTokens vs, deepest_close (.inl rfl), nesting,
      itemsNesting]
    omega
  | object [], opened, ts => deepest_close (.inr rfl) opened ts
  | object ((k, v) :: ms), opened, ts => by
    rw [tokens]
    simp only [List.cons_append, List.append_assoc, List.nil_append, Token.deepest]
    rw [deepest_tokens v, deepest_memberTokens ms, deepest_close (.inr rfl), nesting,
      membersNesting]
    omega
termination_by structural v => v

theorem deepest_itemTokens : ∀ (vs : List Json) (opened : Nat) (ts : List Token),
    Token.deepest opened (itemTokens vs ++ ts) =
      max (opened + itemsNesting vs) (Token.deepest opened ts)
  | [], opened, ts => (max_eq_right (Token.le_deepest opened ts)).symm
  | v :: vs, opened, ts => by
    rw [itemTokens]
    simp only [List.cons_append, List.append_assoc, Token.deepest]
    rw [deepest_tokens v, deepest_itemTokens vs, itemsNesting]
    omega
termination_by structural vs => vs

theorem deepest_memberTokens : ∀ (ms : List (Option String × Json)) (opened : Nat)
    (ts : List Token), Token.deepest opened (memberTokens ms ++ ts) =
      max (opened + membersNesting ms) (Token.deepest opened ts)
  | [], opened, ts => (max_eq_right (Token.le_deepest opened ts)).symm
  | (k, v) :: ms, opened, ts => by
    rw [memberTokens]
    simp only [List.cons_append, List.append_assoc, Token.deepest]
    rw [deepest_tokens v, deepest_memberTokens ms, membersNesting]
    omega
termination_by structural ms => ms

end

/-- A text nests as deep as the document that it holds. -/
theorem Spelled.textNesting_eq {v : Json} {text : String} (h : v.Spelled text) :
    textNesting text = v.nesting := by
  have hdocument := v.deepest_tokens 0 []
  rw [List.append_nil] at hdocument
  rw [textNesting, Layout.deepest_eq h, hdocument]
  simp [Token.deepest]

end Monkey.Json
