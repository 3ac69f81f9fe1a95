import Mathlib.Data.List.Chain
import Monkey.Proofs.Lexemes

/-!
# Monkey — scanning reads layouts

A text is scanned as a row of tokens only if it is a layout of that row
(`Layout.of_scan?`), and every layout is scanned as its row (`Layout.scan?`), provided
that behind a number stands a token that ends it: two numbers side by side would be read
as one.
-/

namespace Monkey.Json

/-! ## Layouts -/

namespace Layout

variable {ts us : List Token} {cs ds : List Char}

theorem append (h : Layout ts cs) (h' : Layout us ds) : Layout (ts ++ us) (cs ++ ds) := by
  induction h with
  | nil => exact h'
  | blank hc _ ih => exact .blank hc ih
  | token ht _ ih =>
    rw [List.cons_append, List.append_assoc]
    exact .token ht ih

theorem append_blank {c : Char} (h : Layout ts cs) (hc : IsBlank c) : Layout ts (cs ++ [c]) := by
  have := h.append (.blank hc .nil)
  rwa [List.append_nil] at this

theorem append_token {t : Token} (h : Layout ts cs) (ht : t.Spelled ds) :
    Layout (ts ++ [t]) (cs ++ ds) := by
  have := h.append (.token ht .nil)
  rwa [List.append_nil] at this

end Layout

/-! ## What a scan has read -/

/-- The scan has read the characters. -/
def Scan.HasRead (scan : Scan) (cs : List Char) : Prop :=
  match scan.current with
  | .nothing => Layout scan.tokens.reverse cs
  | .word rest t => ∃ before w, Layout scan.tokens.reverse before ∧ t.Spelled (w ++ rest) ∧
      cs = before ++ w
  | .number phase lexeme => ∃ before, Layout scan.tokens.reverse before ∧
      phase.Read lexeme.reverse ∧ cs = before ++ lexeme.reverse
  | .string items => ∃ before inner, Layout scan.tokens.reverse before ∧
      Row items.reverse inner ∧ cs = before ++ '\x22' :: inner
  | .escape items => ∃ before inner, Layout scan.tokens.reverse before ∧
      Row items.reverse inner ∧ cs = before ++ '\x22' :: (inner ++ ['\\'])
  | .unit items missing value => ∃ before inner ds, Layout scan.tokens.reverse before ∧
      Row items.reverse inner ∧ ds.length + missing = 4 ∧ 0 < missing ∧ hexNumber? ds = some value ∧
      cs = before ++ '\x22' :: (inner ++ '\\' :: 'u' :: ds)

namespace Layout

variable {tokens : List Token} {cs : List Char} {c : Char} {scan : Scan}

/-- A character that is a token. -/
theorem emit {t : Token} (h : Layout tokens.reverse cs) (ht : t.Spelled [c]) :
    (Scan.emit tokens t).HasRead (cs ++ [c]) := by
  show Layout (t :: tokens).reverse (cs ++ [c])
  rw [List.reverse_cons]
  exact h.append_token ht

/-- A character outside any token. -/
theorem begin? (h : Layout tokens.reverse cs) (hscan : Scan.begin? tokens c = some scan) :
    scan.HasRead (cs ++ [c]) := by
  unfold Scan.begin? at hscan
  split at hscan
  · cases hscan; exact h.append_blank (.inl rfl)
  · cases hscan; exact h.append_blank (.inr (.inl rfl))
  · cases hscan; exact h.append_blank (.inr (.inr (.inl rfl)))
  · cases hscan; exact h.append_blank (.inr (.inr (.inr rfl)))
  · cases hscan; exact h.emit rfl
  · cases hscan; exact h.emit rfl
  · cases hscan; exact h.emit rfl
  · cases hscan; exact h.emit rfl
  · cases hscan; exact h.emit rfl
  · cases hscan; exact h.emit rfl
  · cases hscan; exact ⟨cs, ['n'], h, rfl, rfl⟩
  · cases hscan; exact ⟨cs, ['t'], h, rfl, rfl⟩
  · cases hscan; exact ⟨cs, ['f'], h, rfl, rfl⟩
  · cases hscan; exact ⟨cs, [], h, .nil, rfl⟩
  · cases hscan; exact ⟨cs, h, .inr rfl, rfl⟩
  · obtain ⟨phase, hphase, rfl⟩ := Option.map_eq_some_iff.1 hscan
    have hsign : NumberPhase.sign.Read [] := Or.inl rfl
    exact ⟨cs, h, hsign.next hphase, rfl⟩

/-- A number, once it is complete. -/
theorem emitNumber {phase : NumberPhase} {lexeme : List Char} (h : Layout tokens.reverse cs)
    (hread : phase.Read lexeme.reverse) (hcomplete : phase.complete) :
    Layout (Scan.emitNumber tokens lexeme).reverse (cs ++ lexeme.reverse) := by
  rw [Scan.emitNumber, List.reverse_cons]
  exact h.append_token ⟨hread.isNumber hcomplete, String.toList_ofList.symm⟩

end Layout

namespace Scan.HasRead

variable {tokens : List Token} {items : List StringItem} {scan scan' : Scan} {cs : List Char}
  {c : Char}

/-- One more character, in a word. -/
theorem word {rest : List Char} {t : Token} (h : HasRead ⟨tokens, .word rest t⟩ cs)
    (hstep : Scan.step? ⟨tokens, .word rest t⟩ c = some scan') : scan'.HasRead (cs ++ [c]) := by
  obtain ⟨before, w, hbefore, ht, rfl⟩ := h
  match rest with
  | [] => cases hstep
  | [last] =>
    simp only [Scan.step?] at hstep
    split at hstep
    · next hc =>
      cases hstep
      show Layout (t :: tokens).reverse _
      rw [List.reverse_cons, List.append_assoc, hc]
      exact hbefore.append_token ht
    · cases hstep
  | x :: y :: rest =>
    simp only [Scan.step?] at hstep
    split at hstep
    · next hc =>
      cases hstep
      exact ⟨before, w ++ [c], hbefore, by simpa [hc] using ht, by simp⟩
    · cases hstep

/-- One more character, in a number or behind it. -/
theorem number {phase : NumberPhase} {lexeme : List Char}
    (h : HasRead ⟨tokens, .number phase lexeme⟩ cs)
    (hstep : Scan.step? ⟨tokens, .number phase lexeme⟩ c = some scan') :
    scan'.HasRead (cs ++ [c]) := by
  obtain ⟨before, hbefore, hread, rfl⟩ := h
  simp only [Scan.step?] at hstep
  split at hstep
  · next phase' hphase =>
    cases hstep
    refine ⟨before, hbefore, ?_, by simp⟩
    rw [List.reverse_cons]
    exact hread.next hphase
  -- a character that does not go on with the number ends it and begins what comes next
  · split at hstep
    · next hcomplete => exact (hbefore.emitNumber hread hcomplete).begin? hstep
    · cases hstep

/-- One more character, in a string. -/
theorem string (h : HasRead ⟨tokens, .string items⟩ cs)
    (hstep : Scan.step? ⟨tokens, .string items⟩ c = some scan') : scan'.HasRead (cs ++ [c]) := by
  obtain ⟨before, inner, hbefore, hrow, rfl⟩ := h
  simp only [Scan.step?] at hstep
  split at hstep
  · next hc =>
    cases hstep
    show Layout (_ :: tokens).reverse _
    rw [List.reverse_cons, List.append_assoc, List.cons_append, hc]
    exact hbefore.append_token (Token.spelled_string_iff.2 ⟨_, inner, hrow, rfl, rfl⟩)
  · split at hstep
    · next hc =>
      cases hstep
      exact ⟨before, inner, hbefore, hrow, by simp [hc]⟩
    · split at hstep
      · cases hstep
      · next hquote hslash hcontrol =>
        cases hstep
        refine ⟨before, inner ++ [c], hbefore, ?_, by simp⟩
        rw [List.reverse_cons]
        exact hrow.append (.plain ⟨Char.not_lt.1 hcontrol, hquote, hslash⟩ .nil)

/-- One more character, behind a backslash. -/
theorem escape (h : HasRead ⟨tokens, .escape items⟩ cs)
    (hstep : Scan.step? ⟨tokens, .escape items⟩ c = some scan') : scan'.HasRead (cs ++ [c]) := by
  obtain ⟨before, inner, hbefore, hrow, rfl⟩ := h
  simp only [Scan.step?] at hstep
  split at hstep
  · next hc =>
    cases hstep
    exact ⟨before, inner, [], hbefore, hrow, rfl, Nat.succ_pos 3, rfl, by simp [hc]⟩
  · obtain ⟨d, hd, rfl⟩ := Option.map_eq_some_iff.1 hstep
    refine ⟨before, inner ++ ['\\', c], hbefore, ?_, by simp⟩
    rw [List.reverse_cons]
    exact hrow.append (.letter hd .nil)

/-- One more character, among the digits of an escape. -/
theorem unit {missing value : Nat} (h : HasRead ⟨tokens, .unit items missing value⟩ cs)
    (hstep : Scan.step? ⟨tokens, .unit items missing value⟩ c = some scan') :
    scan'.HasRead (cs ++ [c]) := by
  obtain ⟨before, inner, ds, hbefore, hrow, hlength, hpos, hvalue, rfl⟩ := h
  obtain ⟨digit, hdigit, rfl⟩ := Option.map_eq_some_iff.1 hstep
  have hnext : hexNumber? (ds ++ [c]) = some (value * 16 + digit) := by
    rw [hexNumber?_append hvalue, hdigit, Option.map_some]
  split
  · next hmissing =>
    refine ⟨before, inner ++ '\\' :: 'u' :: (ds ++ [c]), hbefore, ?_, by simp⟩
    rw [List.reverse_cons]
    have hunit : IsUnit (value * 16 + digit) (ds ++ [c]) := by
      refine ⟨?_, hnext⟩
      rw [List.length_append, List.length_singleton]
      omega
    have hrow' := hrow.append (.unit hunit .nil)
    rwa [List.append_nil] at hrow'
  · next hmissing =>
    refine ⟨before, inner, ds ++ [c], hbefore, hrow, ?_, by omega, hnext, by simp⟩
    rw [List.length_append, List.length_singleton]
    omega

/-- One more character. -/
theorem step? (h : scan.HasRead cs) (hstep : scan.step? c = some scan') :
    scan'.HasRead (cs ++ [c]) := by
  obtain ⟨tokens, current⟩ := scan
  cases current with
  | nothing => exact Layout.begin? h hstep
  | word rest t => exact h.word hstep
  | number phase lexeme => exact h.number hstep
  | string items => exact h.string hstep
  | escape items => exact h.escape hstep
  | unit items missing value => exact h.unit hstep

end Scan.HasRead

/-- More characters. -/
theorem Scan.HasRead.foldlM {scan scan' : Scan} {cs ds : List Char} (h : scan.HasRead cs)
    (hscan : ds.foldlM Scan.step? scan = some scan') : scan'.HasRead (cs ++ ds) := by
  induction ds generalizing scan cs with
  | nil =>
    cases hscan
    rwa [List.append_nil]
  | cons d ds ih =>
    rw [List.foldlM_cons] at hscan
    obtain ⟨next, hnext, hscan⟩ := Option.bind_eq_some_iff.1 hscan
    rw [← List.singleton_append, ← List.append_assoc]
    exact ih (h.step? hnext) hscan

/-- A text that can be scanned is a layout of its tokens. -/
theorem Layout.of_scan? {ts : List Token} {cs : List Char} (h : Token.scan? cs = some ts) :
    Layout ts cs := by
  obtain ⟨scan, hscan, hfinish⟩ := Option.bind_eq_some_iff.1 h
  have hstart : Scan.start.HasRead [] := Layout.nil
  have hread := hstart.foldlM hscan
  rw [List.nil_append] at hread
  obtain ⟨tokens, current⟩ := scan
  cases current with
  | nothing =>
    cases hfinish
    exact hread
  | number phase lexeme =>
    obtain ⟨before, hbefore, hphase, rfl⟩ := hread
    simp only [Scan.finish?] at hfinish
    split at hfinish
    · next hcomplete =>
      cases hfinish
      exact hbefore.emitNumber hphase hcomplete
    · cases hfinish
  | word | string | escape | unit => cases hfinish

/-! ## Scanning a layout -/

/-- The token ends a number before it. -/
def Token.EndsNumber (t : Token) : Prop := t = .comma ∨ t = .closeBracket ∨ t = .closeBrace

/-- The second token may follow the first without white space: behind a number stands what
ends it. -/
def Token.Parted (t u : Token) : Prop := (∃ lexeme, t = .number lexeme) → u.EndsNumber

/-- The character ends a number before it. -/
def IsDelimiter (c : Char) : Prop := IsBlank c ∨ c = ',' ∨ c = ']' ∨ c = '\x7d'

theorem NumberPhase.next?_delimiter (phase : NumberPhase) {c : Char} (h : IsDelimiter c) :
    phase.next? c = none := by
  rcases h with (rfl | rfl | rfl | rfl) | rfl | rfl | rfl <;> cases phase <;> rfl

theorem Token.EndsNumber.spelled {t : Token} {cs : List Char} (ht : t.EndsNumber)
    (h : t.Spelled cs) : ∃ c, cs = [c] ∧ IsDelimiter c := by
  rcases ht with rfl | rfl | rfl <;> cases h
  · exact ⟨_, rfl, .inr (.inl rfl)⟩
  · exact ⟨_, rfl, .inr (.inr (.inl rfl))⟩
  · exact ⟨_, rfl, .inr (.inr (.inr rfl))⟩

/-- The scan stands behind the tokens, the last one first; if that is a number, it may still
go on. -/
inductive Scan.Behind : List Token → Scan → Prop
  | nothing {tokens : List Token} : Behind tokens ⟨tokens, .nothing⟩
  | number {tokens : List Token} {phase : NumberPhase} {lexeme : List Char} :
      phase.complete → Behind (Scan.emitNumber tokens lexeme) ⟨tokens, .number phase lexeme⟩

namespace Scan.Behind

variable {tokens : List Token} {scan : Scan}

theorem finish? (h : Behind tokens scan) : scan.finish? = some tokens.reverse := by
  cases h with
  | nothing => rfl
  | number hcomplete => exact if_pos hcomplete

theorem step? (h : Behind tokens scan) {c : Char} (hc : IsDelimiter c) :
    scan.step? c = Scan.begin? tokens c := by
  cases h with
  | nothing => rfl
  | @number tokens phase lexeme hcomplete =>
    simp only [Scan.step?, phase.next?_delimiter hc, if_pos hcomplete]

end Scan.Behind

theorem Scan.begin?_blank (tokens : List Token) {c : Char} (hc : IsBlank c) :
    Scan.begin? tokens c = some ⟨tokens, .nothing⟩ := by
  rcases hc with rfl | rfl | rfl | rfl <;> rfl

theorem Scan.begin?_digit (tokens : List Token) {c : Char} (hc : c.isDigit) :
    Scan.begin? tokens c =
      (NumberPhase.sign.next? c).map fun phase => ⟨tokens, .number phase [c]⟩ := by
  unfold Scan.begin?
  split <;> first | rfl | cases hc

theorem Scan.foldlM_number (tokens : List Token) {phase phase' : NumberPhase}
    (lexeme : List Char) {cs : List Char} (h : cs.foldlM NumberPhase.next? phase = some phase') :
    cs.foldlM Scan.step? ⟨tokens, .number phase lexeme⟩ =
      some ⟨tokens, .number phase' (cs.reverse ++ lexeme)⟩ := by
  induction cs generalizing phase lexeme with
  | nil =>
    cases h
    rfl
  | cons c cs ih =>
    rw [List.foldlM_cons] at h
    obtain ⟨next, hnext, h⟩ := Option.bind_eq_some_iff.1 h
    have hstep : Scan.step? ⟨tokens, .number phase lexeme⟩ c =
        some ⟨tokens, .number next (c :: lexeme)⟩ := by
      simp only [Scan.step?, hnext]
    rw [List.foldlM_cons, hstep, List.reverse_cons, List.append_assoc]
    exact ih (c :: lexeme) h

theorem IsNumber.scanned {cs : List Char} (h : IsNumber cs) (tokens : List Token) :
    ∃ phase : NumberPhase, phase.complete ∧
      cs.foldlM Scan.step? ⟨tokens, .nothing⟩ = some ⟨tokens, .number phase cs.reverse⟩ := by
  obtain ⟨minus, w, f, e, hminus, hw, hf, he, rfl⟩ := h
  obtain ⟨phase, hphase, hcomplete⟩ := NumberPhase.exists_foldlM_next? hw hf he
  refine ⟨phase, hcomplete, ?_⟩
  rw [List.append_assoc, List.append_assoc]
  rw [List.append_assoc] at hphase
  rcases hminus with rfl | rfl
  · -- the first digit begins the number
    have hne : ∃ d ds, w ++ (f ++ e) = d :: ds ∧ d.isDigit := by
      obtain ⟨d, ds, rfl⟩ := List.exists_cons_of_ne_nil hw.isDigits.1
      exact ⟨d, _, rfl, hw.isDigits.2 d List.mem_cons_self⟩
    obtain ⟨d, ds, heq, hd⟩ := hne
    rw [List.nil_append, heq]
    rw [heq, List.foldlM_cons] at hphase
    obtain ⟨next, hnext, hphase⟩ := Option.bind_eq_some_iff.1 hphase
    have hstep : Scan.step? ⟨tokens, .nothing⟩ d = some ⟨tokens, .number next [d]⟩ := by
      rw [Scan.step?, Scan.begin?_digit tokens hd, hnext, Option.map_some]
    rw [List.foldlM_cons, hstep, List.reverse_cons]
    exact Scan.foldlM_number tokens [d] hphase
  · rw [List.singleton_append, List.reverse_cons]
    exact Scan.foldlM_number tokens ['-'] hphase

theorem Scan.foldlM_unit (tokens : List Token) (items : List StringItem) {n : Nat}
    {ds : List Char} (h : IsUnit n ds) : ds.foldlM Scan.step? ⟨tokens, .unit items 4 0⟩ =
      some ⟨tokens, .string (.unit n :: items)⟩ := by
  obtain ⟨a, b, c, d, w, x, y, z, rfl, ha, hb, hc, hd, rfl⟩ := h.exists_digits
  simp [Scan.step?, ha, hb, hc, hd]

theorem Row.scanned {items : List StringItem} {cs : List Char} (h : Row items cs)
    (tokens : List Token) (before : List StringItem) :
    cs.foldlM Scan.step? ⟨tokens, .string before⟩ =
      some ⟨tokens, .string (items.reverse ++ before)⟩ := by
  induction h generalizing before with
  | nil => rfl
  | @plain c items cs hc _ ih =>
    have hstep : Scan.step? ⟨tokens, .string before⟩ c =
        some ⟨tokens, .string (.char c :: before)⟩ := by
      simp only [Scan.step?, if_neg hc.2.1, if_neg hc.2.2, if_neg (Char.not_lt.2 hc.1)]
    rw [List.foldlM_cons, hstep, List.reverse_cons, List.append_assoc]
    exact ih (.char c :: before)
  | @letter l c items cs hl _ ih =>
    have hu : l ≠ 'u' := by
      rintro rfl
      cases hl
    have hstep : Scan.step? ⟨tokens, .escape before⟩ l =
        some ⟨tokens, .string (.char c :: before)⟩ := by
      simp only [Scan.step?, if_neg hu, hl, Option.map_some]
    have hslash : Scan.step? ⟨tokens, .string before⟩ '\\' = some ⟨tokens, .escape before⟩ := rfl
    rw [List.foldlM_cons, hslash, Option.bind_eq_bind, Option.bind_some, List.foldlM_cons, hstep,
      List.reverse_cons, List.append_assoc]
    exact ih (.char c :: before)
  | @unit n ds items cs hn _ ih =>
    have hslash : Scan.step? ⟨tokens, .string before⟩ '\\' = some ⟨tokens, .escape before⟩ := rfl
    have hletter : Scan.step? ⟨tokens, .escape before⟩ 'u' = some ⟨tokens, .unit before 4 0⟩ := rfl
    rw [List.foldlM_cons, hslash, Option.bind_eq_bind, Option.bind_some, List.foldlM_cons, hletter,
      Option.bind_eq_bind, Option.bind_some, List.foldlM_append,
      Scan.foldlM_unit tokens before hn, List.reverse_cons, List.append_assoc]
    exact ih (.unit n :: before)

/-- A spelling of a token is scanned as that token. -/
theorem Token.Spelled.scanned {t : Token} {cs : List Char} (h : t.Spelled cs)
    (tokens : List Token) : ∃ scan, cs.foldlM Scan.step? ⟨tokens, .nothing⟩ = some scan ∧
      Scan.Behind (t :: tokens) scan := by
  cases t with
  | number lexeme =>
    obtain ⟨hnumber, rfl⟩ := h
    obtain ⟨phase, hcomplete, hscan⟩ := hnumber.scanned tokens
    refine ⟨_, hscan, ?_⟩
    have hbehind : Scan.Behind (Scan.emitNumber tokens lexeme.toList.reverse)
        ⟨tokens, .number phase lexeme.toList.reverse⟩ := .number hcomplete
    rwa [Scan.emitNumber, List.reverse_reverse, String.ofList_toList] at hbehind
  | string text =>
    obtain ⟨items, inner, hrow, rfl, rfl⟩ := Token.spelled_string_iff.1 h
    refine ⟨_, ?_, .nothing⟩
    have hquote : Scan.step? ⟨tokens, .nothing⟩ '\x22' = some ⟨tokens, .string []⟩ := rfl
    have hclose : Scan.step? ⟨tokens, .string items.reverse⟩ '\x22' =
        some ⟨.string (itemsText? items) :: tokens, .nothing⟩ := by
      simp only [Scan.step?, if_pos, List.reverse_reverse, Scan.emit]
    rw [List.foldlM_cons, hquote, Option.bind_eq_bind, Option.bind_some, List.foldlM_append,
      hrow.scanned tokens [], List.append_nil]
    exact congrArg (Option.bind · some) hclose
  | bool b => cases b <;> cases h <;> exact ⟨_, rfl, .nothing⟩
  | openBracket | closeBracket | openBrace | closeBrace | comma | colon | null =>
    cases h
    exact ⟨_, rfl, .nothing⟩

/-- A layout is scanned token by token. Behind a number the next character ends it, so that it
is read as if the number were complete. -/
theorem Layout.scanned {ts : List Token} {cs : List Char} (h : Layout ts cs)
    (hts : ts.IsChain Token.Parted) {tokens : List Token} {scan : Scan}
    (hscan : scan.Behind tokens) (hfirst : ∀ t ∈ tokens.head?, ∀ u ∈ ts.head?, t.Parted u) :
    ∃ scan', cs.foldlM Scan.step? scan = some scan' ∧ scan'.Behind (ts.reverse ++ tokens) := by
  induction h generalizing tokens scan with
  | nil => exact ⟨scan, rfl, hscan⟩
  | @blank c ts cs hc _ ih =>
    rw [List.foldlM_cons, hscan.step? (.inl hc), Scan.begin?_blank tokens hc]
    exact ih hts .nothing hfirst
  | @token t ts cs ds ht _ ih =>
    have hmeet : cs.foldlM Scan.step? scan = cs.foldlM Scan.step? ⟨tokens, .nothing⟩ := by
      cases hscan with
      | nothing => rfl
      | @number tokens phase lexeme hcomplete =>
        obtain ⟨c, rfl, hc⟩ := (hfirst _ rfl t rfl ⟨_, rfl⟩).spelled ht
        rw [List.foldlM_cons, List.foldlM_cons, (Scan.Behind.number hcomplete).step? hc]
        rfl
    obtain ⟨next, hnext, hbehind⟩ := ht.scanned tokens
    rw [List.foldlM_append, hmeet, hnext, List.reverse_cons, List.append_assoc]
    refine ih hts.of_cons hbehind fun t' ht' u hu => ?_
    cases ht'
    cases ts with
    | nil => cases hu
    | cons u' ts =>
      cases hu
      exact (List.isChain_cons_cons.1 hts).1

/-- A layout of tokens that may follow each other is scanned as those tokens. -/
theorem Layout.scan? {ts : List Token} {cs : List Char} (h : Layout ts cs)
    (hts : ts.IsChain Token.Parted) : Token.scan? cs = some ts := by
  have hstart : Scan.start.Behind [] := .nothing
  obtain ⟨scan, hscan, hbehind⟩ := h.scanned hts hstart (by simp)
  rw [Token.scan?]
  refine Option.bind_eq_some_iff.2 ⟨scan, hscan, ?_⟩
  rw [hbehind.finish?, List.append_nil, List.reverse_reverse]

end Monkey.Json
