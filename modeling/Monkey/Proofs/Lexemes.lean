import Monkey.Json.Grammar

/-!
# Monkey — how numbers and strings are read

A number is read by phases and a string item by item. What has been read of a number in
a phase is the beginning of a number (`NumberPhase.Read`), and every number is read
through to a phase in which it may end. A row of items is what a string holds before its
surrogates are paired: a row with a text is a spelling of that text, and every spelling
of a text is such a row.
-/

namespace Monkey.Json

/-! ## Numbers -/

/-- Digits can be followed by another one. -/
theorem IsDigits.append_digit {cs : List Char} {c : Char} (h : ∀ d ∈ cs, d.isDigit)
    (hc : c.isDigit) : IsDigits (cs ++ [c]) := by
  refine ⟨List.append_ne_nil_of_right_ne_nil _ (List.cons_ne_nil _ _), fun d hd => ?_⟩
  rcases List.mem_append.1 hd with hd | hd
  · exact h d hd
  · rwa [List.mem_singleton.1 hd]

theorem IsWhole.isDigits {cs : List Char} (h : IsWhole cs) : IsDigits cs := by
  rcases h with rfl | ⟨hcs, -⟩
  · exact ⟨List.cons_ne_nil _ _, by simp⟩
  · exact hcs

namespace NumberPhase

/-- What has been read of a number that stands so far. -/
def Read : NumberPhase → List Char → Prop
  | sign, cs => IsMinus cs
  | zero, cs => ∃ minus, IsMinus minus ∧ cs = minus ++ ['0']
  | whole, cs => ∃ minus ds, IsMinus minus ∧ IsDigits ds ∧ ds.head? ≠ some '0' ∧ cs = minus ++ ds
  | point, cs => ∃ minus w, IsMinus minus ∧ IsWhole w ∧ cs = minus ++ w ++ ['.']
  | fraction, cs => ∃ minus w ds, IsMinus minus ∧ IsWhole w ∧ IsDigits ds ∧
      cs = minus ++ w ++ '.' :: ds
  | exponent, cs => ∃ minus w f e, IsMinus minus ∧ IsWhole w ∧ IsFraction f ∧
      IsExponentLetter e ∧ cs = minus ++ w ++ f ++ [e]
  | exponentSign, cs => ∃ minus w f e s, IsMinus minus ∧ IsWhole w ∧ IsFraction f ∧
      IsExponentLetter e ∧ IsExponentSign [s] ∧ cs = minus ++ w ++ f ++ [e, s]
  | exponentDigits, cs => ∃ minus w f e sign ds, IsMinus minus ∧ IsWhole w ∧ IsFraction f ∧
      IsExponentLetter e ∧ IsExponentSign sign ∧ IsDigits ds ∧
      cs = minus ++ w ++ f ++ e :: (sign ++ ds)

/-- What has been read in a phase that may be the last is a number. -/
theorem Read.isNumber {phase : NumberPhase} {cs : List Char} (h : phase.Read cs)
    (hc : phase.complete) : IsNumber cs := by
  cases phase with
  | sign | point | exponent | exponentSign => cases hc
  | zero =>
    obtain ⟨minus, hm, rfl⟩ := h
    exact ⟨minus, ['0'], [], [], hm, .inl rfl, .inl rfl, .inl rfl, by simp⟩
  | whole =>
    obtain ⟨minus, ds, hm, hds, h0, rfl⟩ := h
    exact ⟨minus, ds, [], [], hm, .inr ⟨hds, h0⟩, .inl rfl, .inl rfl, by simp⟩
  | fraction =>
    obtain ⟨minus, w, ds, hm, hw, hds, rfl⟩ := h
    exact ⟨minus, w, '.' :: ds, [], hm, hw, .inr ⟨ds, hds, rfl⟩, .inl rfl, by simp⟩
  | exponentDigits =>
    obtain ⟨minus, w, f, e, sign, ds, hm, hw, hf, he, hs, hds, rfl⟩ := h
    exact ⟨minus, w, f, _, hm, hw, hf, .inr ⟨e, sign, ds, he, hs, hds, rfl⟩, rfl⟩

/-- One more character of a number. -/
theorem Read.next {phase phase' : NumberPhase} {cs : List Char} {c : Char} (h : phase.Read cs)
    (hc : phase.next? c = some phase') : phase'.Read (cs ++ [c]) := by
  have hone : ∀ d : Char, d.isDigit → IsDigits [d] := fun d hd =>
    ⟨List.cons_ne_nil _ _, List.forall_mem_singleton.2 hd⟩
  cases phase with
  | sign =>
    simp only [next?] at hc
    split at hc
    · next h0 =>
      cases hc
      exact ⟨cs, h, by rw [h0]⟩
    · split at hc
      · next h0 hd =>
        cases hc
        exact ⟨cs, [c], h, hone c hd, by simpa using h0, rfl⟩
      · cases hc
  | zero =>
    obtain ⟨minus, hm, rfl⟩ := h
    simp only [next?] at hc
    split at hc
    · next hp =>
      cases hc
      exact ⟨minus, ['0'], hm, .inl rfl, by rw [hp]⟩
    · split at hc
      · next he =>
        cases hc
        exact ⟨minus, ['0'], [], c, hm, .inl rfl, .inl rfl, he, by simp⟩
      · cases hc
  | whole =>
    obtain ⟨minus, ds, hm, hds, h0, rfl⟩ := h
    have hw : IsWhole ds := .inr ⟨hds, h0⟩
    simp only [next?] at hc
    split at hc
    · next hd =>
      cases hc
      refine ⟨minus, ds ++ [c], hm, .append_digit hds.2 hd, ?_, by simp⟩
      -- the first digit is the one there was
      obtain ⟨d, ds, rfl⟩ := List.exists_cons_of_ne_nil hds.1
      exact h0
    · split at hc
      · next hp =>
        cases hc
        exact ⟨minus, ds, hm, hw, by rw [hp]⟩
      · split at hc
        · next he =>
          cases hc
          exact ⟨minus, ds, [], c, hm, hw, .inl rfl, he, by simp⟩
        · cases hc
  | point =>
    obtain ⟨minus, w, hm, hw, rfl⟩ := h
    simp only [next?] at hc
    split at hc
    · next hd =>
      cases hc
      exact ⟨minus, w, [c], hm, hw, hone c hd, by simp⟩
    · cases hc
  | fraction =>
    obtain ⟨minus, w, ds, hm, hw, hds, rfl⟩ := h
    simp only [next?] at hc
    split at hc
    · next hd =>
      cases hc
      exact ⟨minus, w, ds ++ [c], hm, hw, .append_digit hds.2 hd, by simp⟩
    · split at hc
      · next he =>
        cases hc
        exact ⟨minus, w, _, c, hm, hw, .inr ⟨ds, hds, rfl⟩, he, by simp⟩
      · cases hc
  | exponent =>
    obtain ⟨minus, w, f, e, hm, hw, hf, he, rfl⟩ := h
    simp only [next?] at hc
    split at hc
    · next hs =>
      cases hc
      exact ⟨minus, w, f, e, c, hm, hw, hf, he, .inr (by simpa using hs), by simp⟩
    · split at hc
      · next hd =>
        cases hc
        exact ⟨minus, w, f, e, [], [c], hm, hw, hf, he, .inl rfl, hone c hd, by simp⟩
      · cases hc
  | exponentSign =>
    obtain ⟨minus, w, f, e, s, hm, hw, hf, he, hs, rfl⟩ := h
    simp only [next?] at hc
    split at hc
    · next hd =>
      cases hc
      exact ⟨minus, w, f, e, [s], [c], hm, hw, hf, he, hs, hone c hd, by simp⟩
    · cases hc
  | exponentDigits =>
    obtain ⟨minus, w, f, e, sign, ds, hm, hw, hf, he, hs, hds, rfl⟩ := h
    simp only [next?] at hc
    split at hc
    · next hd =>
      cases hc
      exact ⟨minus, w, f, e, sign, ds ++ [c], hm, hw, hf, he, hs, .append_digit hds.2 hd, by simp⟩
    · cases hc

/-- The phases that digits do not end. -/
theorem foldlM_next?_digits {phase : NumberPhase}
    (hphase : phase = whole ∨ phase = fraction ∨ phase = exponentDigits) {ds : List Char}
    (hds : ∀ d ∈ ds, d.isDigit) : ds.foldlM next? phase = some phase := by
  induction ds with
  | nil => rfl
  | cons d ds ih =>
    have hd : phase.next? d = some phase := by
      rcases hphase with rfl | rfl | rfl <;> simp [next?, hds d]
    rw [List.foldlM_cons, hd]
    exact ih fun c hc => hds c (List.mem_cons_of_mem _ hc)

/-- The digits before the point: a lone zero, or digits that begin with another one. -/
theorem foldlM_next?_whole {w : List Char} (hw : IsWhole w) :
    ∃ phase, w.foldlM next? sign = some phase ∧ (phase = zero ∨ phase = whole) := by
  rcases hw with rfl | ⟨⟨hne, hds⟩, h0⟩
  · exact ⟨zero, rfl, .inl rfl⟩
  · obtain ⟨d, ds, rfl⟩ := List.exists_cons_of_ne_nil hne
    have hd : sign.next? d = some whole := by
      rw [next?, if_neg (by simpa using h0), if_pos (hds d List.mem_cons_self)]
    refine ⟨whole, ?_, .inr rfl⟩
    rw [List.foldlM_cons, hd]
    exact foldlM_next?_digits (.inl rfl) fun c hc => hds c (List.mem_cons_of_mem _ hc)

/-- A fraction can stand behind both, and so can none. -/
theorem foldlM_next?_fraction {phase : NumberPhase} (hphase : phase = zero ∨ phase = whole)
    {f : List Char} (hf : IsFraction f) : ∃ phase', f.foldlM next? phase = some phase' ∧
      (phase' = zero ∨ phase' = whole ∨ phase' = fraction) := by
  rcases hf with rfl | ⟨ds, ⟨hne, hds⟩, rfl⟩
  · exact ⟨phase, rfl, hphase.imp_right .inl⟩
  · obtain ⟨d, ds, rfl⟩ := List.exists_cons_of_ne_nil hne
    have hp : phase.next? '.' = some point := by rcases hphase with rfl | rfl <;> rfl
    have hd : point.next? d = some fraction := if_pos (hds d List.mem_cons_self)
    refine ⟨fraction, ?_, .inr (.inr rfl)⟩
    rw [List.foldlM_cons, hp, Option.bind_eq_bind, Option.bind_some, List.foldlM_cons, hd]
    exact foldlM_next?_digits (.inr (.inl rfl)) fun c hc => hds c (List.mem_cons_of_mem _ hc)

/-- With or without an exponent a number ends in a phase that may be the last. -/
theorem foldlM_next?_exponent {phase : NumberPhase}
    (hphase : phase = zero ∨ phase = whole ∨ phase = fraction) {cs : List Char}
    (hcs : IsExponent cs) : ∃ phase', cs.foldlM next? phase = some phase' ∧ phase'.complete := by
  rcases hcs with rfl | ⟨e, sign, ds, he, hsign, ⟨hne, hds⟩, rfl⟩
  · exact ⟨phase, rfl, by rcases hphase with rfl | rfl | rfl <;> rfl⟩
  · obtain ⟨d, ds, rfl⟩ := List.exists_cons_of_ne_nil hne
    have hletter : phase.next? e = some exponent := by
      rcases hphase with rfl | rfl | rfl <;> rcases he with rfl | rfl <;> rfl
    have hdigit : d.isDigit := hds d List.mem_cons_self
    have hdigits : ds.foldlM next? exponentDigits = some exponentDigits :=
      foldlM_next?_digits (.inr (.inr rfl)) fun c hc => hds c (List.mem_cons_of_mem _ hc)
    have hsigned : exponentSign.next? d = some exponentDigits := if_pos hdigit
    refine ⟨exponentDigits, ?_, rfl⟩
    rw [List.foldlM_cons, hletter]
    rcases hsign with rfl | rfl | rfl
    · have hd : exponent.next? d = some exponentDigits := by
        rw [next?, if_neg (by rintro (rfl | rfl) <;> cases hdigit), if_pos hdigit]
      rw [Option.bind_eq_bind, Option.bind_some, List.nil_append, List.foldlM_cons, hd]
      exact hdigits
    · exact (congrArg (Option.bind · fun p => ds.foldlM next? p) hsigned).trans hdigits
    · exact (congrArg (Option.bind · fun p => ds.foldlM next? p) hsigned).trans hdigits

/-- A number without its sign can be read from the beginning. -/
theorem exists_foldlM_next? {w f e : List Char} (hw : IsWhole w) (hf : IsFraction f)
    (he : IsExponent e) : ∃ phase, (w ++ f ++ e).foldlM next? sign = some phase ∧
      phase.complete := by
  obtain ⟨p, hp, hzero⟩ := foldlM_next?_whole hw
  obtain ⟨q, hq, hfraction⟩ := foldlM_next?_fraction hzero hf
  obtain ⟨r, hr, hcomplete⟩ := foldlM_next?_exponent hfraction he
  refine ⟨r, ?_, hcomplete⟩
  rw [List.foldlM_append, List.foldlM_append, hp]
  exact (congrArg (Option.bind · fun p => e.foldlM next? p) hq).trans hr

end NumberPhase
/-! ## Strings -/

theorem hexDigit?_lt {c : Char} {n : Nat} (h : hexDigit? c = some n) : n < 16 := by
  have hle : ∀ a b : Char, a ≤ b → a.toNat ≤ b.toNat := fun _ _ h => h
  simp only [hexDigit?] at h
  split at h
  · next hc =>
    have := hle _ _ hc.2
    cases h
    simp at this ⊢
    omega
  · split at h
    · next hc =>
      have := hle _ _ hc.2
      cases h
      simp at this ⊢
      omega
    · split at h
      · next hc =>
        have := hle _ _ hc.2
        cases h
        simp at this ⊢
        omega
      · cases h

/-- A digit behind others counts once, and those sixteen times what they did. -/
theorem hexNumber?_append {ds : List Char} {d : Char} {n : Nat} (h : hexNumber? ds = some n) :
    hexNumber? (ds ++ [d]) = (hexDigit? d).map (n * 16 + ·) := by
  rw [hexNumber?] at h
  rw [hexNumber?, List.foldlM_append, h]
  simp

/-- The digits of a code unit one by one. -/
theorem IsUnit.exists_digits {n : Nat} {ds : List Char} (h : IsUnit n ds) :
    ∃ a b c d w x y z, ds = [a, b, c, d] ∧ hexDigit? a = some w ∧ hexDigit? b = some x ∧
      hexDigit? c = some y ∧ hexDigit? d = some z ∧ n = ((w * 16 + x) * 16 + y) * 16 + z := by
  obtain ⟨hlength, hn⟩ := h
  match ds, hlength with
  | [a, b, c, d], _ =>
    simp only [hexNumber?, List.foldlM_cons, List.foldlM_nil] at hn
    cases ha : hexDigit? a <;> cases hb : hexDigit? b <;> cases hc : hexDigit? c <;>
      cases hd : hexDigit? d <;> simp [ha, hb, hc, hd] at hn
    exact ⟨a, b, c, d, _, _, _, _, rfl, ha, hb, hc, hd, hn.symm⟩

/-- Four digits give a number of sixteen bits. -/
theorem IsUnit.lt {n : Nat} {ds : List Char} (h : IsUnit n ds) : n < 0x10000 := by
  obtain ⟨a, b, c, d, w, x, y, z, -, ha, hb, hc, hd, rfl⟩ := h.exists_digits
  have := hexDigit?_lt ha
  have := hexDigit?_lt hb
  have := hexDigit?_lt hc
  have := hexDigit?_lt hd
  omega

/-- The items of a string as they are written. -/
inductive Row : List StringItem → List Char → Prop
  | nil : Row [] []
  | plain {c : Char} {items : List StringItem} {cs : List Char} :
      IsPlain c → Row items cs → Row (.char c :: items) (c :: cs)
  | letter {l c : Char} {items : List StringItem} {cs : List Char} :
      escaped? l = some c → Row items cs → Row (.char c :: items) ('\\' :: l :: cs)
  | unit {n : Nat} {ds : List Char} {items : List StringItem} {cs : List Char} :
      IsUnit n ds → Row items cs → Row (.unit n :: items) ('\\' :: 'u' :: (ds ++ cs))

namespace Row

variable {items items' : List StringItem} {cs cs' : List Char}

/-- Two rows of spellings, one behind the other, spell both. -/
theorem append (h : Row items cs) (h' : Row items' cs') : Row (items ++ items') (cs ++ cs') := by
  induction h with
  | nil => exact h'
  | plain hc _ ih => exact .plain hc ih
  | letter hl _ ih => exact .letter hl ih
  | unit hn _ ih =>
    rw [List.cons_append, List.cons_append, List.cons_append, List.append_assoc]
    exact .unit hn ih

/-- A text between quotes is spelled from one row of items only. -/
theorem unique (h : Row items cs) (h' : Row items' cs) : items' = items := by
  induction h generalizing items' with
  | nil =>
    cases h'
    rfl
  | plain hc _ ih =>
    cases h' with
    | plain _ h' => rw [ih h']
    | letter _ _ => exact absurd rfl hc.2.2
    | unit _ _ => exact absurd rfl hc.2.2
  | letter hl _ ih =>
    cases h' with
    | plain hc _ => exact absurd rfl hc.2.2
    | letter hl' h' =>
      cases hl.symm.trans hl'
      rw [ih h']
    | unit _ _ => cases hl
  | unit hn _ ih =>
    -- four digits are told from the rest by their number
    generalize hcs : '\\' :: 'u' :: (_ ++ _) = cs at h'
    cases h' with
    | nil => cases hcs
    | plain hc _ =>
      cases hcs
      exact absurd rfl hc.2.2
    | letter hl _ =>
      cases hcs
      cases hl
    | unit hn' h' =>
      injection hcs with _ hcs
      injection hcs with _ hcs
      obtain ⟨rfl, rfl⟩ := List.append_inj hcs (hn.1.trans hn'.1.symm)
      cases hn.2.symm.trans hn'.2
      rw [ih h']

theorem quotable (h : Row items cs) : Quotable cs := by
  induction h with
  | nil => exact .nil
  | plain hc _ ih => exact .plain hc ih
  | letter hl _ ih => exact .letter hl ih
  | unit hn _ ih => exact .unit hn ih

end Row

theorem Quotable.exists_row {cs : List Char} (h : Quotable cs) : ∃ items, Row items cs := by
  induction h with
  | nil => exact ⟨_, .nil⟩
  | plain hc _ ih => exact ih.elim fun _ h => ⟨_, .plain hc h⟩
  | letter hl _ ih => exact ih.elim fun _ h => ⟨_, .letter hl h⟩
  | unit hn _ ih => exact ih.elim fun _ h => ⟨_, .unit hn h⟩

/-- A unit that is no half of a pair is a character of its own. -/
theorem chars?_unit {n : Nat} (hhigh : isHigh n = false) (hlow : isLow n = false)
    (items : List StringItem) :
    chars? (.unit n :: items) = (chars? items).map (Char.ofNat n :: ·) := by
  match items with
  | [] | .char _ :: _ | .unit _ :: _ => simp [chars?, hhigh, hlow]

/-- No character is a half of a pair. -/
theorem not_surrogate (c : Char) : isHigh c.toNat = false ∧ isLow c.toNat = false := by
  have hc := c.valid
  simp only [isHigh, isLow, Bool.and_eq_false_iff, decide_eq_false_iff_not]
  simp only [UInt32.isValidChar, Nat.isValidChar] at hc
  have : c.toNat = c.val.toNat := rfl
  omega

theorem toNat_ofNat {n : Nat} (hn : n < 0xd800 ∨ 0xdfff < n ∧ n < 0x110000) :
    (Char.ofNat n).toNat = n := by
  have h : n.isValidChar := hn
  rw [Char.ofNat, dif_pos h]
  rfl

/-- Every spelling of a text is a row of items with that text. -/
theorem Spelling.exists_row {s cs : List Char} (h : Spelling s cs) :
    ∃ items, Row items cs ∧ chars? items = some s := by
  induction h with
  | nil => exact ⟨[], .nil, rfl⟩
  | plain hc _ ih =>
    obtain ⟨items, hrow, hs⟩ := ih
    exact ⟨_, .plain hc hrow, by rw [chars?, hs]; rfl⟩
  | letter hl _ ih =>
    obtain ⟨items, hrow, hs⟩ := ih
    exact ⟨_, .letter hl hrow, by rw [chars?, hs]; rfl⟩
  | @unit c ds s cs hn _ ih =>
    obtain ⟨items, hrow, hs⟩ := ih
    refine ⟨_, .unit hn hrow, ?_⟩
    rw [chars?_unit (not_surrogate c).1 (not_surrogate c).2, hs, Char.ofNat_toNat]
    rfl
  | @pair c high low ds es s cs hh hh' hl hl' hc hds hes _ ih =>
    obtain ⟨items, hrow, hs⟩ := ih
    refine ⟨.unit high :: .unit low :: items, .unit hds (.unit hes hrow), ?_⟩
    have hsurrogates : (isHigh high && isLow low) = true := by
      simp [isHigh, isLow, hh, hh', hl, hl']
    have hchar : pairChar high low = c := by rw [pairChar, ← hc, Char.ofNat_toNat]
    rw [chars?, if_pos hsurrogates, hs, hchar]
    rfl

/-- A row of items with a text is a spelling of that text. -/
theorem Row.spelling {items : List StringItem} {s cs : List Char} (h : Row items cs)
    (hs : chars? items = some s) : Spelling s cs := by
  fun_induction chars? items generalizing s cs with
  | case1 =>
    cases h
    cases hs
    exact .nil
  | case2 c items ih =>
    obtain ⟨s, hrest, rfl⟩ := Option.map_eq_some_iff.1 hs
    cases h with
    | plain hc h => exact .plain hc (ih h hrest)
    | letter hl h => exact .letter hl (ih h hrest)
  | case3 high low items hpair ih =>
    -- the unit and the one behind it are a surrogate pair, which is one character
    obtain ⟨s, hrest, rfl⟩ := Option.map_eq_some_iff.1 hs
    cases h with
    | unit hds h =>
      cases h with
      | unit hes h =>
        simp only [isHigh, isLow, Bool.and_eq_true, decide_eq_true_eq] at hpair
        obtain ⟨⟨hh, hh'⟩, hl, hl'⟩ := hpair
        exact .pair hh hh' hl hl' (toNat_ofNat (by omega)) hds hes (ih h hrest)
  | case4 => cases hs
  | case5 high low items _ hsingle ih =>
    obtain ⟨s, hrest, rfl⟩ := Option.map_eq_some_iff.1 hs
    cases h with
    | unit hds h =>
      have := hds.lt
      simp only [isHigh, isLow, Bool.or_eq_true, Bool.and_eq_true, decide_eq_true_eq] at hsingle
      refine .unit ?_ (ih h hrest)
      rwa [toNat_ofNat (by omega)]
  | case6 => cases hs
  | case7 n items _ hsingle ih =>
    obtain ⟨s, hrest, rfl⟩ := Option.map_eq_some_iff.1 hs
    cases h with
    | unit hds h =>
      have := hds.lt
      simp only [isHigh, isLow, Bool.or_eq_true, Bool.and_eq_true, decide_eq_true_eq] at hsingle
      refine .unit ?_ (ih h hrest)
      rwa [toNat_ofNat (by omega)]

/-- A string token is spelled by a row of items that has its text. -/
theorem Token.spelled_string_iff {text : Option String} {cs : List Char} :
    (Token.string text).Spelled cs ↔ ∃ items inner, Row items inner ∧ itemsText? items = text ∧
      cs = '\x22' :: (inner ++ ['\x22']) := by
  cases text with
  | some s =>
    constructor
    · rintro ⟨inner, hs, rfl⟩
      obtain ⟨items, hrow, hchars⟩ := hs.exists_row
      have htext : itemsText? items = some s := by
        rw [itemsText?, hchars, Option.map_some, String.ofList_toList]
      exact ⟨items, inner, hrow, htext, rfl⟩
    · rintro ⟨items, inner, hrow, htext, rfl⟩
      obtain ⟨chars, hchars, rfl⟩ := Option.map_eq_some_iff.1 htext
      exact ⟨inner, hrow.spelling (by rw [hchars, String.toList_ofList]), rfl⟩
  | none =>
    constructor
    · rintro ⟨inner, hinner, hnone, rfl⟩
      obtain ⟨items, hrow⟩ := hinner.exists_row
      refine ⟨items, inner, hrow, ?_, rfl⟩
      rw [itemsText?, Option.map_eq_none_iff]
      cases hchars : chars? items with
      | none => rfl
      | some s => exact absurd (hrow.spelling hchars) (hnone s)
    · rintro ⟨items, inner, hrow, htext, rfl⟩
      refine ⟨inner, hrow.quotable, fun s hs => ?_, rfl⟩
      obtain ⟨items', hrow', hchars⟩ := hs.exists_row
      cases hrow.unique hrow'
      rw [itemsText?, hchars] at htext
      cases htext

end Monkey.Json
