import Monkey.Json.Shape
import Monkey.Proofs.Documents

/-!
# Monkey — writing documents

A token that can be spelled at all is spelled by what is written for it, so that the
text of a document holds it (`Json.compact_spelled`) and is read back. An integer is
written in the one way in which it is a number without a fraction or an exponent
(`Json.eq_repr_of_integer?`).
-/

namespace Monkey.Json

/-! ## Documents that have texts -/

/-- The token has a spelling. -/
def Token.Spellable (t : Token) : Prop := ∃ cs, t.Spelled cs

/-- Every token of the document has a spelling. -/
def Spellable (v : Json) : Prop := ∀ t ∈ v.tokens, t.Spellable

/-- What has a text has tokens with one each. -/
theorem Spelled.spellable {v : Json} {text : String} (h : v.Spelled text) : v.Spellable := by
  have hlayout {ts : List Token} {cs : List Char} (h : Layout ts cs) :
      ∀ t ∈ ts, t.Spellable := by
    induction h with
    | nil => exact fun t ht => (List.not_mem_nil ht).elim
    | blank _ _ ih => exact ih
    | token ht _ ih => exact List.forall_mem_cons.2 ⟨⟨_, ht⟩, ih⟩
  exact hlayout h

section

variable {P : Token → Prop}

theorem forall_mem_itemTokens (hcomma : P .comma) (vs : List Json) :
    (∀ t ∈ itemTokens vs, P t) ↔ ∀ v ∈ vs, ∀ t ∈ v.tokens, P t := by
  induction vs with
  | nil => simp [itemTokens]
  | cons v vs ih =>
    rw [itemTokens, List.forall_mem_append, List.forall_mem_cons, ih, List.forall_mem_cons]
    exact and_congr_left fun _ => and_iff_right hcomma

theorem forall_mem_memberTokens (hcomma : P .comma) (hcolon : P .colon)
    (ms : List (Option String × Json)) :
    (∀ t ∈ memberTokens ms, P t) ↔ ∀ m ∈ ms, P (.string m.1) ∧ ∀ t ∈ m.2.tokens, P t := by
  induction ms with
  | nil => simp [memberTokens]
  | cons m ms ih =>
    rw [memberTokens, List.forall_mem_append, List.forall_mem_cons, List.forall_mem_cons,
      List.forall_mem_cons, ih, List.forall_mem_cons]
    exact and_congr_left fun _ => by rw [and_iff_right hcomma, and_iff_right hcolon]

end

theorem spellable_array_iff {vs : List Json} :
    (array vs).Spellable ↔ ∀ v ∈ vs, v.Spellable := by
  cases vs with
  | nil => simp [Spellable, tokens, Token.Spellable, Token.Spelled]
  | cons v vs =>
    have hcomma : Token.Spellable .comma := ⟨_, rfl⟩
    have hopen : Token.Spellable .openBracket := ⟨_, rfl⟩
    have hclose : Token.Spellable .closeBracket := ⟨_, rfl⟩
    simp only [Spellable, tokens, List.forall_mem_append, List.forall_mem_cons,
      forall_mem_itemTokens hcomma]
    simp [hopen, hclose]

/-- An object can be written if its keys can be, and what stands under them. -/
theorem spellable_object_iff {ms : List (Option String × Json)} :
    (object ms).Spellable ↔ ∀ m ∈ ms, (string m.1).Spellable ∧ m.2.Spellable := by
  cases ms with
  | nil => simp [Spellable, tokens, Token.Spellable, Token.Spelled]
  | cons m ms =>
    have hcomma : Token.Spellable .comma := ⟨_, rfl⟩
    have hcolon : Token.Spellable .colon := ⟨_, rfl⟩
    have hopen : Token.Spellable .openBrace := ⟨_, rfl⟩
    have hclose : Token.Spellable .closeBrace := ⟨_, rfl⟩
    simp only [Spellable, tokens, List.forall_mem_append, List.forall_mem_cons,
      forall_mem_memberTokens hcomma hcolon]
    simp [hcolon, hopen, hclose, and_assoc]

/-! ## Integers -/

/-- The digits of a positive number do not begin with zero. -/
theorem head?_toDigits {n : Nat} (hn : 0 < n) : (Nat.toDigits 10 n).head? ≠ some '0' := by
  induction n using Nat.strongRecOn with
  | ind n ih =>
    rcases Nat.lt_or_ge n 10 with hlt | hge
    · rw [Nat.toDigits_of_lt_base hlt]
      simpa using hn.ne'
    · have hq : 0 < n / 10 := by omega
      obtain ⟨d, ds, hds⟩ :=
        List.exists_cons_of_ne_nil (Nat.toDigits_ne_nil (n := n / 10) (b := 10))
      have hhead := ih (n / 10) (by omega) hq
      rw [hds] at hhead
      rw [Nat.toDigits_of_base_le (by omega) hge, hds]
      exact hhead

/-- No number but zero begins with the digit zero. -/
theorem isWhole_toDigits (n : Nat) : IsWhole (Nat.toDigits 10 n) := by
  rcases Nat.eq_zero_or_pos n with rfl | hn
  · exact .inl rfl
  · have hdigits : ∀ c ∈ Nat.toDigits 10 n, c.isDigit := fun c hc =>
      Nat.isDigit_of_mem_toDigits (by omega) (by omega) hc
    exact .inr ⟨⟨Nat.toDigits_ne_nil, hdigits⟩, head?_toDigits hn⟩

theorem digitChar_digit {d : Char} (hd : d.isDigit) :
    d.toNat - '0'.toNat < 10 ∧ Nat.digitChar (d.toNat - '0'.toNat) = d := by
  simp only [Char.isDigit, Bool.and_eq_true, decide_eq_true_eq] at hd
  have hle : '0'.toNat ≤ d.toNat := hd.1
  have hge : d.toNat ≤ '9'.toNat := hd.2
  have hzero : '0'.toNat = 48 := rfl
  have hnine : '9'.toNat = 57 := rfl
  refine ⟨by omega, Char.toNat_inj.1 ?_⟩
  rw [Nat.toNat_digitChar_of_lt_ten (by omega)]
  omega

/-- Digits of which zero is not the first are the digits of the number they write. -/
theorem toDigits_ofDigitChars {cs : List Char} (h : IsWhole cs) :
    Nat.toDigits 10 (Nat.ofDigitChars 10 cs 0) = cs := by
  induction cs using List.reverseRecOn with
  | nil => exact absurd rfl h.isDigits.1
  | append_singleton ds d ih =>
    have hd : d.isDigit := h.isDigits.2 d (List.mem_append_right _ List.mem_cons_self)
    obtain ⟨hlt, hchar⟩ := digitChar_digit hd
    rw [Nat.ofDigitChars_append, Nat.ofDigitChars_cons, Nat.ofDigitChars_nil]
    cases ds with
    | nil =>
      rw [Nat.ofDigitChars_nil, Nat.mul_zero, Nat.zero_add, Nat.toDigits_of_lt_base hlt, hchar]
      rfl
    | cons c ds =>
      have hcs : IsDigits (c :: ds) ∧ c ≠ '0' := by
        rcases h with h | ⟨hdigits, hhead⟩
        · simp at h
        · exact ⟨⟨List.cons_ne_nil _ _, fun x hx => hdigits.2 x (List.mem_append_left _ hx)⟩,
            fun hc => hhead (by rw [hc]; rfl)⟩
      have hprefix := ih (.inr ⟨hcs.1, by simpa using hcs.2⟩)
      have hpos : 0 < Nat.ofDigitChars 10 (c :: ds) 0 := by
        rcases Nat.eq_zero_or_pos (Nat.ofDigitChars 10 (c :: ds) 0) with h0 | hpos
        · rw [h0] at hprefix
          injection hprefix with hc
          exact absurd hc.symm hcs.2
        · exact hpos
      have hlast : Nat.toDigits 10 (d.toNat - '0'.toNat) = [d] := by
        rw [Nat.toDigits_of_lt_base hlt, hchar]
      rw [← Nat.toDigits_append_toDigits (by omega) hpos hlt, hprefix, hlast]

/-- An integer is written as a number of JSON. -/
theorem isNumber_repr (n : Int) : IsNumber n.repr.toList := by
  rw [Int.repr_eq_if]
  split
  · exact ⟨[], _, [], [], .inl rfl, isWhole_toDigits n.toNat, .inl rfl, .inl rfl,
      by simp⟩
  · exact ⟨['-'], _, [], [], .inr rfl, isWhole_toDigits (-n).toNat, .inl rfl, .inl rfl,
      by simp⟩

/-- Digits do not begin with a minus sign. -/
theorem IsDigits.append_ne_minus {cs ds r : List Char} (h : IsDigits cs) : cs ++ r ≠ '-' :: ds := by
  intro heq
  obtain ⟨c, cs, rfl⟩ := List.exists_cons_of_ne_nil h.1
  have hdigit : c.isDigit := h.2 c List.mem_cons_self
  obtain rfl : c = '-' := (List.cons.inj heq).1
  cases hdigit

/-- Where all is digits there is neither a point nor an exponent. -/
theorem eq_whole_of_all_isDigit {w f e : List Char} (hf : IsFraction f) (he : IsExponent e)
    (hall : (w ++ f ++ e).all Char.isDigit) : w ++ f ++ e = w := by
  have hmem := List.all_eq_true.1 hall
  have hf' : f = [] := by
    rcases hf with rfl | ⟨ds, -, rfl⟩
    · rfl
    · cases hmem '.' (by simp)
  have he' : e = [] := by
    rcases he with rfl | ⟨l, sign, ds, hl, -, -, rfl⟩
    · rfl
    · have hletter := hmem l (by simp)
      rcases hl with rfl | rfl <;> cases hletter
  rw [hf', he', List.append_nil, List.append_nil]

theorem integer?_of_ne_minus {lexeme : String} (h : ∀ ds, lexeme.toList ≠ '-' :: ds) :
    integer? lexeme = if lexeme.toList.all Char.isDigit then
      some ((Nat.ofDigitChars 10 lexeme.toList 0 : Nat) : Int) else none := by
  rw [integer?]
  split
  · next ds hds => exact absurd hds (h ds)
  · rfl

/-- There is no negative zero among the integers. -/
theorem integer?_of_minus {lexeme : String} {ds : List Char} (h : lexeme.toList = '-' :: ds) :
    integer? lexeme = if ds.all Char.isDigit && Nat.ofDigitChars 10 ds 0 != 0 then
      some (-((Nat.ofDigitChars 10 ds 0 : Nat) : Int)) else none := by
  rw [integer?, h]
  rfl

/-- An integer is read back from its digits. -/
theorem integer?_repr (n : Int) : integer? n.repr = some n := by
  have hall (m : Nat) : (Nat.toDigits 10 m).all Char.isDigit :=
    List.all_eq_true.2 (isWhole_toDigits m).isDigits.2
  rw [Int.repr_eq_if]
  split
  · next hn =>
    have hlist : n.toNat.repr.toList = Nat.toDigits 10 n.toNat := by simp
    have hminus (ds : List Char) : Nat.toDigits 10 n.toNat ≠ '-' :: ds := by
      rw [← List.append_nil (Nat.toDigits 10 n.toNat)]
      exact (isWhole_toDigits n.toNat).isDigits.append_ne_minus
    rw [integer?_of_ne_minus (by rwa [hlist]), hlist, if_pos (hall _),
      Nat.ofDigitChars_ten_toDigits, Int.toNat_of_nonneg hn]
  · next hn =>
    have hlist : ("-" ++ (-n).toNat.repr).toList = '-' :: Nat.toDigits 10 (-n).toNat := by
      simp
    have hne : (-n).toNat ≠ 0 := by omega
    have hneg : -((-n).toNat : Int) = n := by omega
    rw [integer?_of_minus hlist, hall, Nat.ofDigitChars_ten_toDigits, Bool.true_and,
      if_pos (bne_iff_ne.2 hne), hneg]

/-- A number that is read as an integer is written as that integer is. -/
theorem eq_repr_of_integer? {lexeme : String} {n : Int} (hl : IsNumber lexeme.toList)
    (h : integer? lexeme = some n) : lexeme = n.repr := by
  obtain ⟨minus, w, f, e, hminus, hw, hf, he, hlexeme⟩ := hl
  apply String.toList_inj.1
  rcases hminus with rfl | rfl
  · rw [List.nil_append] at hlexeme
    have hne (ds : List Char) : lexeme.toList ≠ '-' :: ds := by
      rw [hlexeme, List.append_assoc]
      exact hw.isDigits.append_ne_minus
    rw [integer?_of_ne_minus hne, hlexeme] at h
    split at h
    · next hall =>
      cases h
      rw [hlexeme, eq_whole_of_all_isDigit hf he hall, Int.repr_eq_if, if_pos (by omega)]
      simp [toDigits_ofDigitChars hw]
    · cases h
  · rw [List.append_assoc, List.append_assoc, List.singleton_append, ← List.append_assoc] at hlexeme
    rw [integer?_of_minus hlexeme] at h
    split at h
    · next hall =>
      cases h
      obtain ⟨hdigits, hne⟩ := Bool.and_eq_true_iff.1 hall
      rw [eq_whole_of_all_isDigit hf he hdigits] at hlexeme hne ⊢
      rw [bne_iff_ne] at hne
      -- minus zero is no integer, so the number is negative
      rw [hlexeme, Int.repr_eq_if, if_neg (by omega)]
      simp [toDigits_ofDigitChars hw]
    · cases h

/-- An integer of 64 bits is read back. -/
theorem int64?_ofInt (n : Int64) : (ofInt n.toInt).int64? = some n := by
  rw [ofInt, int64?, integer?_repr, Option.bind_eq_bind, Option.bind_some,
    if_pos ⟨n.minValue_le_toInt, n.toInt_le⟩, Int64.ofInt_toInt]

/-- What is read as an integer of 64 bits is that integer as it is written. -/
theorem eq_ofInt_of_int64? {v : Json} {n : Int64} (hv : v.Spellable)
    (h : v.int64? = some n) : v = ofInt n.toInt := by
  cases v with
  | number lexeme =>
    obtain ⟨cs, hnumber, rfl⟩ := hv (.number lexeme) (List.mem_singleton.2 rfl)
    obtain ⟨m, hm, h⟩ := Option.bind_eq_some_iff.1 h
    split at h
    · next hrange =>
      cases h
      have hmax := hrange.2
      rw [Int64.toInt_maxValue] at hmax
      rw [Int64.toInt_ofInt_of_le hrange.1 (by omega), eq_repr_of_integer? hnumber hm]
      rfl
    · cases h
  | null | bool | string | array | object => cases h

/-! ## Strings -/

theorem hexNumber?_digits : ∀ n < 32,
    hexNumber? ['0', '0', Nat.digitChar (n / 16), Nat.digitChar (n % 16)] = some n := by
  decide

/-- A character is spelled by its escape, if it needs one. -/
theorem escape_spelling (c : Char) {s cs : List Char} (h : Spelling s cs) :
    Spelling (c :: s) ((escape c).toList ++ cs) := by
  unfold escape
  split
  · next hc => exact .letter (by rw [hc]; rfl) h
  split
  · next hc => exact .letter (by rw [hc]; rfl) h
  split
  · next hc => exact .letter (by rw [hc]; rfl) h
  split
  · next hc => exact .letter (by rw [hc]; rfl) h
  split
  · next hc => exact .letter (by rw [hc]; rfl) h
  split
  · next hc => exact .letter (by rw [hc]; rfl) h
  split
  · next hc => exact .letter (by rw [hc]; rfl) h
  split
  · next hc =>
    have hlt : c.toNat < 32 := hc
    have hunit : IsUnit c.toNat
        ['0', '0', Nat.digitChar (c.toNat / 16), Nat.digitChar (c.toNat % 16)] :=
      ⟨rfl, hexNumber?_digits _ hlt⟩
    have hescape : ∀ a b : Char, ("\\u00" ++ String.ofList [a, b]).toList =
        '\\' :: 'u' :: ['0', '0', a, b] := by simp
    rw [hescape]
    exact .unit hunit h
  · next hquote hslash _ _ _ _ _ hcontrol =>
    rw [String.toList_singleton]
    exact .plain ⟨Char.not_lt.1 hcontrol, hquote, hslash⟩ h

theorem flatMap_escape_spelling (s : List Char) :
    Spelling s (s.flatMap fun c => (escape c).toList) := by
  induction s with
  | nil => exact .nil
  | cons c s ih => exact escape_spelling c ih

theorem spellable_null : null.Spellable := by
  intro t ht
  obtain rfl := List.mem_singleton.1 ht
  exact ⟨_, rfl⟩

theorem spellable_bool (b : Bool) : (bool b).Spellable := by
  intro t ht
  obtain rfl := List.mem_singleton.1 ht
  exact ⟨_, rfl⟩

theorem spellable_ofInt (n : Int) : (ofInt n).Spellable := by
  intro t ht
  obtain rfl := List.mem_singleton.1 ht
  exact ⟨_, isNumber_repr n, rfl⟩

theorem spellable_ofString (s : String) : (ofString s).Spellable := by
  intro t ht
  obtain rfl := List.mem_singleton.1 ht
  exact ⟨_, _, flatMap_escape_spelling s.toList, rfl⟩

/-- A token that can be spelled is spelled by what is written for it. -/
theorem Token.Spelled.written {t : Token} {cs : List Char} (h : t.Spelled cs) :
    t.Spelled t.written.toList := by
  cases t with
  | number lexeme =>
    obtain ⟨hnumber, rfl⟩ := h
    exact ⟨hnumber, rfl⟩
  | string text =>
    cases text with
    | none =>
      have hunit : IsUnit 0xd800 ['d', '8', '0', '0'] := ⟨rfl, rfl⟩
      exact Token.spelled_string_iff.2 ⟨_, _, .unit hunit .nil, rfl, rfl⟩
    | some s =>
      refine ⟨_, flatMap_escape_spelling s.toList, ?_⟩
      simp [Token.written, quoted, String.toList_join, List.flatMap_map]
  | bool b => cases b <;> rfl
  | openBracket | closeBracket | openBrace | closeBrace | comma | colon | null => rfl

/-- The text of a document holds it. -/
theorem compact_spelled {v : Json} (hv : v.Spellable) : v.Spelled v.compact := by
  have hlayout : ∀ ts : List Token, (∀ t ∈ ts, ∃ cs, t.Spelled cs) →
      Layout ts (ts.flatMap fun t => t.written.toList) := by
    intro ts hts
    induction ts with
    | nil => exact .nil
    | cons t ts ih =>
      obtain ⟨cs, hcs⟩ := hts t List.mem_cons_self
      exact .token hcs.written (ih fun u hu => hts u (List.mem_cons_of_mem _ hu))
  rw [Json.Spelled, compact, String.toList_join, List.flatMap_map]
  exact hlayout v.tokens hv

end Monkey.Json
