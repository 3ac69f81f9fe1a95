import Mathlib.Data.Set.Function
import Monkey.Proofs.Lexing

/-!
# Monkey — source text is unambiguous

The lexemes of a tree tell the tree (`Expr.determined` and its fellows), by induction over
it: how a row begins says of which form it is, and the parts are told by induction, given
what may stand behind them. Two things need care. A call begins with its callee, so the row
of an expression tells it up to arguments that follow. And a minus sign before an operand
looks like the sign of a negative integer that begins one.
-/

namespace Monkey

open Lexeme

/-! ## Lists with separators -/

section Lists

variable {α : Type} {row : α → List Lexeme} {sep : List Lexeme} {Follows Close : List Lexeme → Prop}
  {r r' : List Lexeme}

/-- What may follow an item, and what closes a list, tell the items and the end apart. -/
structure Separable (row : α → List Lexeme) (sep : List Lexeme)
    (Follows Close : List Lexeme → Prop) : Prop where
  close_follows : ∀ {r}, Close r → Follows r
  next_follows : ∀ a ts, Follows (sep ++ (row a ++ ts))
  close_ne_next : ∀ {r}, Close r → ∀ a ts, r ≠ sep ++ (row a ++ ts)
  close_ne_first : ∀ {r}, Close r → ∀ a ts, r ≠ row a ++ ts

/-- The row of an item tells the item. -/
def ItemDetermined (row : α → List Lexeme) (Follows : List Lexeme → Prop) (a : α) : Prop :=
  ∀ a' r r', Follows r → Follows r' → row a ++ r = row a' ++ r' → a = a' ∧ r = r'

/-- A list that is not empty is its first item and then every other one behind a separator. -/
theorem intercalate_cons_eq_flatMap (x : List Lexeme) (xs : List (List Lexeme)) :
    sep.intercalate (x :: xs) = x ++ xs.flatMap (sep ++ ·) := by
  induction xs generalizing x with
  | nil => simp
  | cons y ys ih =>
    rw [List.intercalate_cons_cons, ih, List.flatMap_cons]
    simp

/-- Whatever stands behind an item of a closed list may follow an item. -/
theorem Separable.rest_follows (h : Separable row sep Follows Close) (hr : Close r) (as : List α) :
    Follows ((as.map row).flatMap (sep ++ ·) ++ r) := by
  cases as with
  | nil => exact h.close_follows hr
  | cons a as =>
    have hnext := h.next_follows a ((as.map row).flatMap (sep ++ ·) ++ r)
    simpa using hnext

/-- The items behind the first one are told one by one: where one list goes on and the other
is closed, the next lexemes differ. -/
theorem Separable.rest_eq (h : Separable row sep Follows Close) (hr : Close r) (hr' : Close r')
    {as bs : List α} (has : ∀ a ∈ as, ItemDetermined row Follows a)
    (heq : (as.map row).flatMap (sep ++ ·) ++ r = (bs.map row).flatMap (sep ++ ·) ++ r') :
    as = bs ∧ r = r' := by
  induction as generalizing bs with
  | nil =>
    cases bs with
    | nil => exact ⟨rfl, heq⟩
    | cons b bs =>
      simp only [List.map_nil, List.flatMap_nil, List.nil_append, List.map_cons, List.flatMap_cons,
        List.append_assoc] at heq
      exact absurd heq (h.close_ne_next hr _ _)
  | cons a as ih =>
    cases bs with
    | nil =>
      simp only [List.map_nil, List.flatMap_nil, List.nil_append, List.map_cons, List.flatMap_cons,
        List.append_assoc] at heq
      exact absurd heq.symm (h.close_ne_next hr' _ _)
    | cons b bs =>
      simp only [List.map_cons, List.flatMap_cons, List.append_assoc,
        List.append_cancel_left_eq] at heq
      obtain ⟨rfl, hrest⟩ := has a List.mem_cons_self b _ _ (h.rest_follows hr as)
        (h.rest_follows hr' bs) heq
      obtain ⟨rfl, hr⟩ := ih (fun a ha => has a (List.mem_cons_of_mem _ ha)) hrest
      exact ⟨rfl, hr⟩

/-- The row of a list tells its items. -/
theorem Separable.eq (h : Separable row sep Follows Close) (hr : Close r) (hr' : Close r')
    {as bs : List α} (has : ∀ a ∈ as, ItemDetermined row Follows a)
    (heq : sep.intercalate (as.map row) ++ r = sep.intercalate (bs.map row) ++ r') :
    as = bs ∧ r = r' := by
  cases as with
  | nil =>
    cases bs with
    | nil => exact ⟨rfl, heq⟩
    | cons b bs =>
      rw [List.map_cons, intercalate_cons_eq_flatMap, List.append_assoc] at heq
      exact absurd heq (h.close_ne_first hr _ _)
  | cons a as =>
    cases bs with
    | nil =>
      rw [List.map_cons, intercalate_cons_eq_flatMap, List.append_assoc] at heq
      exact absurd heq.symm (h.close_ne_first hr' _ _)
    | cons b bs =>
      rw [List.map_cons, List.map_cons, intercalate_cons_eq_flatMap, intercalate_cons_eq_flatMap,
        List.append_assoc, List.append_assoc] at heq
      obtain ⟨rfl, hrest⟩ := has a List.mem_cons_self b _ _ (h.rest_follows hr as)
        (h.rest_follows hr' bs) heq
      obtain ⟨rfl, hr⟩ := h.rest_eq hr hr' (fun a ha => has a (List.mem_cons_of_mem _ ha)) hrest
      exact ⟨rfl, hr⟩

end Lists

/-! ## Calls -/

variable {ι : Type}

/-- The expression is a call. -/
def Expr.IsCall : Expr ι → Prop
  | .call _ _ => True
  | _ => False

/-- The expression called, and what it gives called again, and so on. -/
def Expr.applied (e : Expr ι) (argss : List (List (Expr ι))) : Expr ι := argss.foldl .call e

/-- The lexemes of the arguments of calls, one after the other. -/
def Expr.argumentLexemes (argss : List (List (Expr ι))) : List Lexeme :=
  argss.flatMap fun es => mark '(' :: (listed (Expr.rows es) ++ [mark ')'])

namespace Expr

/-- The row of an expression called is its own row with the arguments behind it. -/
theorem lexemes_applied (e : Expr ι) (argss : List (List (Expr ι))) :
    (e.applied argss).lexemes = e.lexemes ++ argumentLexemes argss := by
  induction argss generalizing e with
  | nil => simp [applied, argumentLexemes]
  | cons es argss ih =>
    have hrest := ih (.call e es)
    rw [applied, List.foldl_cons, ← applied, hrest, lexemes, argumentLexemes, argumentLexemes,
      List.flatMap_cons]
    simp

/-- Every expression is one that is no call, applied so and so often. -/
theorem exists_applied : ∀ e : Expr ι, ∃ (head : Expr ι) (argss : List (List (Expr ι))),
    ¬ head.IsCall ∧ e = head.applied argss
  | .call f es => by
    obtain ⟨head, argss, hhead, rfl⟩ := exists_applied f
    exact ⟨head, argss ++ [es], hhead, by simp [applied]⟩
  | .ident _ | .int _ | .str _ | .bool _ | .array _ | .unary _ _ | .binary _ _ _ | .cond _ _ _
  | .fn _ | .index _ _ => ⟨_, [], id, rfl⟩
termination_by structural e => e

end Expr

/-! ## How expressions begin -/

/-- An integer begins with a minus sign or is its digits. -/
@[simp] theorem intLexemes_append_eq_cons {n : Int64} {t : Lexeme} {r ts : List Lexeme} :
    intLexemes n ++ r = t :: ts ↔
      n.toInt < 0 ∧ mark '-' = t ∧ Lexeme.number n.toInt.natAbs :: r = ts ∨
        0 ≤ n.toInt ∧ Lexeme.number n.toInt.natAbs = t ∧ r = ts := by
  unfold intLexemes
  split
  · next h => simp [h, Int.not_le.2 h]
  · next h => simp [h, Int.not_lt.1 h]

/-- The lexemes of the second branch of a condition. -/
def Block.elseLexemes : Option (Block ι) → List Lexeme
  | none => []
  | some no => mark ' ' :: keyword "else" :: braced (Stmt.rows no)

@[simp] theorem Expr.lexemes_cond (c : Expr ι) (yes : Block ι) (no : Option (Block ι)) :
    (Expr.cond c yes no).lexemes =
      keyword "if" :: mark ' ' ::
        (c.lexemes ++ (braced (Stmt.rows yes) ++ Block.elseLexemes no)) := by
  cases no <;> simp [Expr.lexemes, Block.elseLexemes]

theorem FnLiteral.lexemes_eq (f : FnLiteral ι) :
    f.lexemes = keyword "fn" :: mark '(' :: (listed (f.parameters.map fun p => [name p]) ++
      mark ')' :: braced (Stmt.rows f.body)) := by
  cases f
  rfl

namespace Expr

variable {e : Expr ι} {r ts : List Lexeme}

theorem eq_ident {x : String} (hcall : ¬ e.IsCall) (h : e.lexemes ++ r = name x :: ts) :
    e = .ident x ∧ r = ts := by
  cases e with
  | call => exact absurd trivial hcall
  | ident y => simpa [lexemes] using h
  | _ => simp [lexemes, FnLiteral.lexemes_eq] at h

theorem eq_str {s : String} (hcall : ¬ e.IsCall) (h : e.lexemes ++ r = literal s :: ts) :
    e = .str s ∧ r = ts := by
  cases e with
  | call => exact absurd trivial hcall
  | str y => simpa [lexemes] using h
  | _ => simp [lexemes, FnLiteral.lexemes_eq] at h

theorem eq_number {n : Nat} (hcall : ¬ e.IsCall) (h : e.lexemes ++ r = Lexeme.number n :: ts) :
    ∃ m : Int64, 0 ≤ m.toInt ∧ m.toInt.natAbs = n ∧ e = .int m ∧ r = ts := by
  cases e with
  | call => exact absurd trivial hcall
  | int m => exact ⟨m, by simpa [lexemes] using h⟩
  | _ => simp [lexemes, FnLiteral.lexemes_eq] at h

/-- Of what is no call only a negative integer begins with a minus sign outside parentheses. -/
theorem eq_minus (hcall : ¬ e.IsCall) (h : e.lexemes ++ r = mark '-' :: ts) :
    ∃ m : Int64, m.toInt < 0 ∧ e = .int m ∧ Lexeme.number m.toInt.natAbs :: r = ts := by
  cases e with
  | call => exact absurd trivial hcall
  | int m => exact ⟨m, by simpa [lexemes] using h⟩
  | _ => simp [lexemes, FnLiteral.lexemes_eq] at h

/-- A truth value is a keyword, and begins no other expression. -/
theorem eq_bool {b : Bool} (hcall : ¬ e.IsCall) (h : e.lexemes ++ r = keyword (boolText b) :: ts) :
    e = .bool b ∧ r = ts := by
  cases e with
  | call => exact absurd trivial hcall
  | bool b' => cases b <;> cases b' <;> simp [lexemes, boolText] at h ⊢ <;> exact h
  | _ => cases b <;> simp [lexemes, FnLiteral.lexemes_eq, boolText] at h

theorem eq_array (hcall : ¬ e.IsCall) (h : e.lexemes ++ r = mark '[' :: ts) :
    ∃ es, e = .array es ∧ listed (rows es) ++ mark ']' :: r = ts := by
  cases e with
  | call => exact absurd trivial hcall
  | array es => exact ⟨es, rfl, by simpa [lexemes] using h⟩
  | _ => simp [lexemes, FnLiteral.lexemes_eq] at h

/-- Three forms begin with a parenthesis, and what stands in it tells which. -/
theorem eq_paren (hcall : ¬ e.IsCall) (h : e.lexemes ++ r = mark '(' :: ts) :
    (∃ op a, e = .unary op a ∧ op.symbol.toList.map mark ++ (a.lexemes ++ mark ')' :: r) = ts) ∨
    (∃ op a b, e = .binary op a b ∧ a.lexemes ++ mark ' ' :: (op.symbol.toList.map mark ++
      mark ' ' :: (b.lexemes ++ mark ')' :: r)) = ts) ∨
    (∃ a b, e = .index a b ∧
      a.lexemes ++ mark '[' :: (b.lexemes ++ mark ']' :: mark ')' :: r) = ts) := by
  cases e with
  | call => exact absurd trivial hcall
  | unary op a => exact .inl ⟨op, a, rfl, by simpa [lexemes] using h⟩
  | binary op a b => exact .inr (.inl ⟨op, a, b, rfl, by simpa [lexemes] using h⟩)
  | index a b => exact .inr (.inr ⟨a, b, rfl, by simpa [lexemes] using h⟩)
  | _ => simp [lexemes, FnLiteral.lexemes_eq] at h

theorem eq_cond (hcall : ¬ e.IsCall) (h : e.lexemes ++ r = keyword "if" :: ts) :
    ∃ c yes no, e = .cond c yes no ∧ mark ' ' :: (c.lexemes ++ (braced (Stmt.rows yes) ++
      (Block.elseLexemes no ++ r))) = ts := by
  cases e with
  | call => exact absurd trivial hcall
  | bool b => cases b <;> simp [lexemes, boolText] at h
  | cond c yes no => exact ⟨c, yes, no, rfl, by simpa using h⟩
  | _ => simp [lexemes, FnLiteral.lexemes_eq] at h

theorem eq_fn (hcall : ¬ e.IsCall) (h : e.lexemes ++ r = keyword "fn" :: ts) :
    ∃ f, e = .fn f ∧ f.lexemes ++ r = keyword "fn" :: ts := by
  cases e with
  | call => exact absurd trivial hcall
  | bool b => cases b <;> simp [lexemes, boolText] at h
  | fn f => exact ⟨f, rfl, h⟩
  | _ => simp [lexemes] at h

end Expr

/-- The lexemes that an expression may begin with, and some more. -/
def Lexeme.Begins : Lexeme → Prop
  | keyword w => w ≠ "else" ∧ w ≠ "let" ∧ w ≠ "return"
  | mark c => c = '-' ∨ c = '[' ∨ c = '('
  | name _ | number _ | literal _ => True

/-- No expression has an empty row. -/
theorem Expr.exists_lexemes_eq : ∀ e : Expr ι, ∃ t ts, e.lexemes = t :: ts ∧ t.Begins
  | .call f es => by
    obtain ⟨t, ts, hts, ht⟩ := exists_lexemes_eq f
    exact ⟨t, _, by rw [lexemes, hts, List.cons_append], ht⟩
  | .int n => by
    by_cases h : n.toInt < 0
    · exact ⟨mark '-', _, by rw [lexemes, intLexemes, if_pos h], .inl rfl⟩
    · exact ⟨.number _, _, by rw [lexemes, intLexemes, if_neg h], trivial⟩
  | .bool b => ⟨_, _, rfl, by cases b <;> simp [boolText, Begins]⟩
  | .cond c yes no => ⟨_, _, lexemes_cond c yes no, by simp [Begins]⟩
  | .fn f => ⟨_, _, f.lexemes_eq, by simp [Begins]⟩
  | .ident _ | .str _ => ⟨_, _, rfl, trivial⟩
  | .array _ => ⟨_, _, rfl, .inr (.inl rfl)⟩
  | .unary _ _ | .binary _ _ _ | .index _ _ => ⟨_, _, rfl, .inr (.inr rfl)⟩
termination_by structural e => e

/-- The keywords of the other statements begin no expression. -/
theorem Expr.lexemes_ne_keyword {w : String} (hw : w = "let" ∨ w = "return") (e : Expr ι)
    {r ts : List Lexeme} : e.lexemes ++ r ≠ keyword w :: ts := by
  intro h
  obtain ⟨t, us, hus, ht⟩ := e.exists_lexemes_eq
  rw [hus] at h
  injection h with h _
  rw [h] at ht
  rcases hw with rfl | rfl <;> simp [Begins] at ht

/-- The row of a statement is not empty, and does not begin as what closes a block or adds a
second branch. -/
theorem Stmt.exists_lexemes_eq (s : Stmt ι) : ∃ t ts, s.lexemes = t :: ts ∧
    t ≠ keyword "else" ∧ t ≠ mark ' ' ∧ t ≠ mark '\x7d' := by
  cases s with
  | bind x e => exact ⟨_, _, rfl, by simp⟩
  | ret e => exact ⟨_, _, rfl, by simp⟩
  | expr e =>
    obtain ⟨t, ts, hts, ht⟩ := e.exists_lexemes_eq
    refine ⟨t, ts, hts, ?_, ?_, ?_⟩ <;> rintro rfl <;> simp [Begins] at ht

/-! ## Determined rows -/

/-- The rest of a row goes on with no second branch. -/
def Stops (r : List Lexeme) : Prop := ∀ ts, r ≠ mark ' ' :: keyword "else" :: ts

/-- The rest of a row goes on with no second branch and with no arguments. -/
def Ends (r : List Lexeme) : Prop := (∀ ts, r ≠ mark '(' :: ts) ∧ Stops r

theorem Ends.nil : Ends [] := ⟨nofun, nofun⟩

theorem Ends.mark {c : Char} (hc : c ≠ '(' ∧ c ≠ ' ') (ts : List Lexeme) :
    Ends (mark c :: ts) := by
  simp [Ends, Stops, hc]

theorem Ends.space {t : Lexeme} (ht : t ≠ keyword "else") (ts : List Lexeme) :
    Ends (Lexeme.mark ' ' :: t :: ts) := by
  simp [Ends, Stops, ht]

/-- The row of an expression tells the expression, up to what it may be called with. -/
def Expr.Determined (e : Expr Unit) : Prop :=
  ∀ (e' : Expr Unit) (r r' : List Lexeme), Stops r → Ends r' → e.lexemes ++ r = e'.lexemes ++ r' →
    ∃ argss, e' = e.applied argss ∧ r = argumentLexemes argss ++ r'

/-- The row of an expression tells it from all that are no calls. -/
def Expr.HeadDetermined (e : Expr Unit) : Prop :=
  ∀ (e' : Expr Unit) (r r' : List Lexeme), ¬ e'.IsCall → Stops r → Stops r' →
    e.lexemes ++ r = e'.lexemes ++ r' → e = e' ∧ r = r'

/-- The row of a statement tells it. -/
abbrev Stmt.Determined (s : Stmt Unit) : Prop := ItemDetermined Stmt.lexemes Ends s

/-- The row of a function literal tells it. -/
def FnLiteral.Determined (f : FnLiteral Unit) : Prop :=
  ∀ (f' : FnLiteral Unit) (r r' : List Lexeme), f.lexemes ++ r = f'.lexemes ++ r' → f = f' ∧ r = r'

/-- If no arguments follow either, nothing of the other expression is left over. -/
theorem Expr.Determined.item {e : Expr Unit} (h : e.Determined) :
    ItemDetermined Expr.lexemes Ends e := by
  intro e' r r' hr hr' heq
  obtain ⟨argss, rfl, rfl⟩ := h e' r r' hr.2 hr' heq
  cases argss with
  | nil => exact ⟨rfl, rfl⟩
  | cons es argss => exact absurd rfl (hr.1 _)

/-- It is enough to tell an expression from the heads of the others, and their calls come
behind. -/
theorem Expr.HeadDetermined.determined {e : Expr Unit} (h : e.HeadDetermined) : e.Determined := by
  intro e' r r' hr hr' heq
  obtain ⟨head, argss, hhead, rfl⟩ := e'.exists_applied
  -- arguments begin with a bracket, so no second branch follows the head of the other
  have hstops : Stops (argumentLexemes argss ++ r') := by
    cases argss with
    | nil => exact hr'.2
    | cons es argss => exact nofun
  rw [lexemes_applied, List.append_assoc] at heq
  obtain ⟨rfl, rfl⟩ := h head r _ hhead hr hstops heq
  exact ⟨argss, rfl, rfl⟩

/-! ## Lists of expressions, parameters and statements -/

theorem Expr.rows_eq (es : List (Expr ι)) : Expr.rows es = es.map Expr.lexemes := by
  induction es with
  | nil => rfl
  | cons e es ih => rw [Expr.rows, ih, List.map_cons]

theorem Stmt.rows_eq (ss : List (Stmt ι)) : Stmt.rows ss = ss.map Stmt.lexemes := by
  induction ss with
  | nil => rfl
  | cons s ss ih => rw [Stmt.rows, ih, List.map_cons]

/-- The rest of a row begins with the bracket behind a list. -/
def ClosesList (r : List Lexeme) : Prop := ∃ c ts, (c = ')' ∨ c = ']') ∧ r = mark c :: ts

/-- The rest of a row begins with the brace behind a block, or there is none. -/
def ClosesBlock (r : List Lexeme) : Prop := r = [] ∨ ∃ ts, r = mark ' ' :: mark '\x7d' :: ts

/-- In a list of expressions a comma and a closing bracket tell whether another one comes. -/
theorem separable_expressions :
    Separable (Expr.lexemes : Expr Unit → List Lexeme) [mark ',', mark ' '] Ends ClosesList where
  close_follows := by
    rintro _ ⟨c, ts, rfl | rfl, rfl⟩ <;> exact .mark (by decide) ts
  next_follows e ts := .mark (by decide) _
  close_ne_next := by
    rintro _ ⟨c, ts, rfl | rfl, rfl⟩ e ts' h <;> simp at h
  close_ne_first := by
    rintro _ ⟨c, ts, hc, rfl⟩ e ts' h
    obtain ⟨t, us, hus, ht⟩ := e.exists_lexemes_eq
    rw [hus, List.cons_append, List.cons.injEq] at h
    obtain ⟨rfl, -⟩ := h
    rcases hc with rfl | rfl <;> simp [Begins] at ht

/-- Parameters are single lexemes, so anything may follow one. -/
theorem separable_parameters :
    Separable (fun x => [name x]) [mark ',', mark ' '] (fun _ => True) ClosesList where
  close_follows _ := trivial
  next_follows _ _ := trivial
  close_ne_next := by
    rintro _ ⟨c, ts, rfl | rfl, rfl⟩ e ts' h <;> simp at h
  close_ne_first := by
    rintro _ ⟨c, ts, -, rfl⟩ e ts' h
    cases h

/-- Statements stand on lines of their own or behind blanks; no statement begins as a block
ends. -/
theorem separable_statements {c : Char} (hc : c = ' ' ∨ c = '\n') :
    Separable (Stmt.lexemes : Stmt Unit → List Lexeme) [mark c] Ends ClosesBlock where
  close_follows := by
    rintro _ (rfl | ⟨ts, rfl⟩)
    · exact .nil
    · exact .space (by decide) ts
  next_follows s ts := by
    obtain ⟨t, us, hus, helse, -⟩ := s.exists_lexemes_eq
    rw [hus]
    rcases hc with rfl | rfl
    · exact .space helse _
    · exact .mark (by decide) _
  close_ne_next := by
    rintro _ (rfl | ⟨ts, rfl⟩) s ts' h
    · cases h
    · obtain ⟨t, us, hus, -, -, hbrace⟩ := s.exists_lexemes_eq
      rw [hus] at h
      injection h with _ h
      injection h with h _
      exact hbrace h.symm
  close_ne_first := by
    rintro _ (rfl | ⟨ts, rfl⟩) s ts' h
    · obtain ⟨t, us, hus, -⟩ := s.exists_lexemes_eq
      rw [hus] at h
      cases h
    · obtain ⟨t, us, hus, -, hspace, -⟩ := s.exists_lexemes_eq
      rw [hus] at h
      injection h with h _
      exact hspace h.symm

/-- The expressions of a list are told, and what stands behind its bracket. -/
theorem listed_eq {es es' : List (Expr Unit)} (hes : ∀ e ∈ es, e.Determined) {c : Char}
    (hc : c = ')' ∨ c = ']') {r r' : List Lexeme}
    (h : listed (Expr.rows es) ++ mark c :: r = listed (Expr.rows es') ++ mark c :: r') :
    es = es' ∧ r = r' := by
  rw [Expr.rows_eq, Expr.rows_eq] at h
  obtain ⟨rfl, hr⟩ := separable_expressions.eq ⟨c, r, hc, rfl⟩ ⟨c, r', hc, rfl⟩
    (fun e he => (hes e he).item) h
  exact ⟨rfl, List.tail_eq_of_cons_eq hr⟩

/-- So are the statements of a block. -/
theorem braced_eq {ss ss' : List (Stmt Unit)} (hss : ∀ s ∈ ss, s.Determined) {r r' : List Lexeme}
    (h : braced (Stmt.rows ss) ++ r = braced (Stmt.rows ss') ++ r') : ss = ss' ∧ r = r' := by
  rw [Stmt.rows_eq, Stmt.rows_eq] at h
  simp only [braced, List.append_assoc, List.cons_append, List.nil_append, List.cons.injEq,
    true_and] at h
  obtain ⟨rfl, hr⟩ := (separable_statements (.inl rfl)).eq (.inr ⟨r, rfl⟩) (.inr ⟨r', rfl⟩) hss h
  exact ⟨rfl, List.tail_eq_of_cons_eq (List.tail_eq_of_cons_eq hr)⟩

/-! ## Forms -/

/-- A function is told once the statements of its body are. -/
theorem FnLiteral.determined_of {f : FnLiteral Unit} (hbody : ∀ s ∈ f.body, s.Determined) :
    f.Determined := by
  intro f' r r' h
  rw [lexemes_eq, lexemes_eq] at h
  obtain ⟨label, ps, body⟩ := f
  obtain ⟨label', ps', body'⟩ := f'
  simp only [List.cons_append, List.append_assoc, List.cons.injEq, true_and] at h
  obtain ⟨rfl, hrest⟩ := separable_parameters.eq ⟨')', _, .inl rfl, rfl⟩ ⟨')', _, .inl rfl, rfl⟩
    (fun p _ p' r r' _ _ heq => by simpa using heq) h
  obtain ⟨rfl, rfl⟩ := braced_eq hbody (List.tail_eq_of_cons_eq hrest)
  exact ⟨rfl, rfl⟩

namespace Expr

theorem headDetermined_ident (x : String) : (ident x).HeadDetermined := by
  intro e' r r' hcall _ _ h
  obtain ⟨rfl, rfl⟩ := eq_ident hcall h.symm
  exact ⟨rfl, rfl⟩

theorem headDetermined_str (s : String) : (str s).HeadDetermined := by
  intro e' r r' hcall _ _ h
  obtain ⟨rfl, rfl⟩ := eq_str hcall h.symm
  exact ⟨rfl, rfl⟩

theorem headDetermined_bool (b : Bool) : (bool b).HeadDetermined := by
  intro e' r r' hcall _ _ h
  obtain ⟨rfl, rfl⟩ := eq_bool hcall h.symm
  exact ⟨rfl, rfl⟩

/-- The sign and the digits tell the integer, also the least one. -/
theorem headDetermined_int (n : Int64) : (int n).HeadDetermined := by
  intro e' r r' hcall _ _ h
  by_cases hn : n.toInt < 0
  · have hrow : e'.lexemes ++ r' = mark '-' :: Lexeme.number n.toInt.natAbs :: r := by
      rw [← h, lexemes, intLexemes, if_pos hn]
      rfl
    obtain ⟨m, hm, rfl, hrest⟩ := eq_minus hcall hrow
    obtain ⟨habs, rfl⟩ : m.toInt.natAbs = n.toInt.natAbs ∧ r' = r := by simpa using hrest
    have heq : n.toInt = m.toInt := by omega
    exact ⟨congrArg int (Int64.toInt_inj.1 heq), rfl⟩
  · have hrow : e'.lexemes ++ r' = Lexeme.number n.toInt.natAbs :: r := by
      rw [← h, lexemes, intLexemes, if_neg hn]
      rfl
    obtain ⟨m, hm, habs, rfl, rfl⟩ := eq_number hcall hrow
    have heq : n.toInt = m.toInt := by omega
    exact ⟨congrArg int (Int64.toInt_inj.1 heq), rfl⟩

theorem headDetermined_array {es : List (Expr Unit)} (hes : ∀ e ∈ es, e.Determined) :
    (array es).HeadDetermined := by
  intro e' r r' hcall _ _ h
  have hrow : e'.lexemes ++ r' = mark '[' :: (listed (rows es) ++ mark ']' :: r) := by
    rw [← h, lexemes]
    simp
  obtain ⟨es', rfl, hrest⟩ := eq_array hcall hrow
  obtain ⟨rfl, rfl⟩ := listed_eq hes (.inr rfl) hrest.symm
  exact ⟨rfl, rfl⟩

/-- Without a second branch nothing that looks like one follows, so the branches are told. -/
theorem headDetermined_cond {c : Expr Unit} {yes : Block Unit} {no : Option (Block Unit)}
    (hc : c.Determined) (hyes : ∀ s ∈ yes, s.Determined)
    (hno : ∀ b ∈ no, ∀ s ∈ b, s.Determined) : (cond c yes no).HeadDetermined := by
  intro e' r r' hcall hr hr' h
  have hrow : e'.lexemes ++ r' = keyword "if" :: mark ' ' :: (c.lexemes ++
      (braced (Stmt.rows yes) ++ (Block.elseLexemes no ++ r))) := by
    rw [← h, lexemes_cond]
    simp
  obtain ⟨c', yes', no', rfl, htest⟩ := eq_cond hcall hrow
  have hbrace (ss : Block Unit) (ts : List Lexeme) : Ends (braced (Stmt.rows ss) ++ ts) :=
    .space (by decide) _
  have htail := List.tail_eq_of_cons_eq htest
  obtain ⟨rfl, hyes'⟩ := hc.item c' _ _ (hbrace _ _) (hbrace _ _) htail.symm
  obtain ⟨rfl, hrest⟩ := braced_eq hyes hyes'
  cases no with
  | none =>
    cases no' with
    | none => exact ⟨rfl, hrest⟩
    | some no' => exact absurd hrest (hr _)
  | some no =>
    cases no' with
    | none => exact absurd hrest.symm (hr' _)
    | some no' =>
      obtain ⟨rfl, rfl⟩ := braced_eq (hno no rfl)
        (List.tail_eq_of_cons_eq (List.tail_eq_of_cons_eq hrest))
      exact ⟨rfl, rfl⟩

theorem headDetermined_fn {f : FnLiteral Unit} (hf : f.Determined) : (fn f).HeadDetermined := by
  intro e' r r' hcall _ _ h
  have hfirst : f.lexemes ++ r = keyword "fn" :: (f.lexemes ++ r).tail := by
    rw [f.lexemes_eq]
    rfl
  obtain ⟨f', rfl, -⟩ := eq_fn hcall (h.symm.trans hfirst)
  obtain ⟨rfl, rfl⟩ := hf f' r r' h
  exact ⟨rfl, rfl⟩

/-- The callee is told up to its arguments, and the first ones of those that are left are
those of the call. -/
theorem determined_call {f : Expr Unit} {es : List (Expr Unit)} (hf : f.Determined)
    (hes : ∀ e ∈ es, e.Determined) : (call f es).Determined := by
  intro e' r r' _ hr' h
  rw [lexemes, List.append_assoc] at h
  -- the callee tells the other up to its last arguments, and the first of those are the call's
  obtain ⟨argss, rfl, hrest⟩ := hf e' _ r' (by simp [Stops]) hr' h
  cases argss with
  | nil => exact absurd hrest.symm (hr'.1 _)
  | cons as argss =>
    simp only [argumentLexemes, List.flatMap_cons, List.cons_append, List.append_assoc,
      List.cons.injEq, true_and, List.nil_append] at hrest
    obtain ⟨rfl, rfl⟩ := listed_eq hes (.inl rfl) hrest
    exact ⟨argss, rfl, rfl⟩

/-! ## Parentheses

An expression in parentheses after a minus sign and one that begins with a negative integer
begin the same. Where they do, either can be traded for one of the other kind. -/

/-- If a row goes on behind a minus sign as another one begins, the other is the sign and the
row of some expression, and the sign and the first are the row of one too. -/
theorem exists_negated {a b : Expr Unit} {r r' : List Lexeme}
    (h : mark '-' :: (a.lexemes ++ r) = b.lexemes ++ r') :
    ∃ a' b' : Expr Unit,
      b.lexemes = mark '-' :: a'.lexemes ∧ b'.lexemes = mark '-' :: a.lexemes := by
  -- of the heads only a negative integer begins with a minus sign
  obtain ⟨head, argss, hhead, rfl⟩ := b.exists_applied
  rw [lexemes_applied, List.append_assoc] at h
  obtain ⟨m, hm, rfl, hrest⟩ := eq_minus hhead h.symm
  obtain ⟨head', argss', hhead', rfl⟩ := a.exists_applied
  rw [lexemes_applied, List.append_assoc] at hrest
  obtain ⟨k, hk, habs, rfl, -⟩ := eq_number hhead' hrest.symm
  have hm' : intLexemes m = [mark '-', Lexeme.number m.toInt.natAbs] := if_pos hm
  have hk' : intLexemes k = [Lexeme.number m.toInt.natAbs] := by
    rw [intLexemes, if_neg (Int.not_lt.2 hk), habs]
  refine ⟨(int k).applied argss, (int m).applied argss', ?_, ?_⟩
  · rw [lexemes_applied, lexemes_applied, lexemes, lexemes, hm', hk']
    rfl
  · rw [lexemes_applied, lexemes_applied, lexemes, lexemes, hm', hk']
    rfl

/-- An exclamation mark stands in parentheses only. -/
theorem lexemes_ne_exclamation {b : Expr Unit} {ts r : List Lexeme} :
    b.lexemes ++ r ≠ mark '!' :: ts := by
  intro h
  obtain ⟨t, us, hus, ht⟩ := b.exists_lexemes_eq
  rw [hus] at h
  injection h with h _
  rw [h] at ht
  simp [Begins] at ht

variable {a b : Expr Unit} {c : Char} {ts r : List Lexeme}

/-- An expression after an operator is no expression that goes on otherwise. -/
theorem unary_ne (ha : a.Determined) (hc : c ≠ ')') (hends : Ends (mark c :: ts)) (op : UnaryOp) :
    op.symbol.toList.map mark ++ (a.lexemes ++ mark ')' :: r) ≠ b.lexemes ++ mark c :: ts := by
  intro h
  cases op with
  | not => exact lexemes_ne_exclamation h.symm
  | neg =>
    obtain ⟨a', -, ha', -⟩ := exists_negated h
    rw [ha'] at h
    -- without the sign both begin alike, but different characters stand behind them
    obtain ⟨-, hrest⟩ := ha.item a' _ _ (.mark (by decide) r) hends
      (List.tail_eq_of_cons_eq h)
    injection hrest with hmark _
    injection hmark with hchar
    exact hc hchar.symm

/-- The same with the sides exchanged. -/
theorem ne_unary (hb : b.Determined) (hc : c ≠ ')') (hends : Ends (mark c :: ts)) (op : UnaryOp) :
    b.lexemes ++ mark c :: ts ≠ op.symbol.toList.map mark ++ (a.lexemes ++ mark ')' :: r) := by
  intro h
  cases op with
  | not => exact lexemes_ne_exclamation h
  | neg =>
    obtain ⟨-, b', -, hb'⟩ := exists_negated h.symm
    have hrow : b.lexemes ++ mark c :: ts = b'.lexemes ++ mark ')' :: r := by
      rw [h, hb']
      rfl
    obtain ⟨-, hrest⟩ := hb.item b' _ _ hends (.mark (by decide) r) hrow
    injection hrest with hmark _
    injection hmark with hchar
    exact hc hchar

/-- A blank and an operator end the operand on the left. -/
theorem ends_operator (op : BinaryOp) (ts : List Lexeme) :
    Ends (mark ' ' :: (op.symbol.toList.map mark ++ ts)) := by
  cases op <;> exact .space (by decide) _

/-- An operator is told by its characters, which a blank ends. -/
theorem operator_eq {op op' : BinaryOp} {ts ts' : List Lexeme}
    (h : op.symbol.toList.map mark ++ mark ' ' :: ts =
      op'.symbol.toList.map mark ++ mark ' ' :: ts') : op = op' ∧ ts = ts' := by
  cases op <;> cases op' <;> simp [BinaryOp.symbol] at h ⊢ <;> exact h

theorem headDetermined_unary (ha : a.Determined) (op : UnaryOp) :
    (unary op a).HeadDetermined := by
  intro e' r r' hcall _ _ h
  have hrow : e'.lexemes ++ r' =
      mark '(' :: (op.symbol.toList.map mark ++ (a.lexemes ++ mark ')' :: r)) := by
    rw [← h, lexemes]
    simp
  rcases eq_paren hcall hrow with ⟨op', a', rfl, hrest⟩ | ⟨op', a', b', rfl, hrest⟩ |
      ⟨a', b', rfl, hrest⟩
  · have hop : op = op' ∧ a.lexemes ++ mark ')' :: r = a'.lexemes ++ mark ')' :: r' := by
      cases op <;> cases op' <;> simpa [UnaryOp.symbol] using hrest.symm
    obtain ⟨rfl, hoperand⟩ := hop
    obtain ⟨rfl, hparen⟩ := ha.item a' _ _ (.mark (by decide) r) (.mark (by decide) r') hoperand
    exact ⟨rfl, List.tail_eq_of_cons_eq hparen⟩
  · exact absurd hrest.symm (unary_ne ha (by decide) (ends_operator op' _) op)
  · exact absurd hrest.symm (unary_ne ha (by decide) (.mark (by decide) _) op)

/-- Neither of the other two forms in parentheses has an operator behind its first operand. -/
theorem headDetermined_binary (ha : a.Determined) (hb : b.Determined) (op : BinaryOp) :
    (binary op a b).HeadDetermined := by
  intro e' r r' hcall _ _ h
  have hrow : e'.lexemes ++ r' = mark '(' :: (a.lexemes ++ mark ' ' ::
      (op.symbol.toList.map mark ++ mark ' ' :: (b.lexemes ++ mark ')' :: r))) := by
    rw [← h, lexemes]
    simp
  rcases eq_paren hcall hrow with ⟨op', a', rfl, hrest⟩ | ⟨op', a', b', rfl, hrest⟩ |
      ⟨a', b', rfl, hrest⟩
  · exact absurd hrest.symm (ne_unary ha (by decide) (ends_operator op _) op')
  · obtain ⟨rfl, hop⟩ := ha.item a' _ _ (ends_operator op _) (ends_operator op' _) hrest.symm
    obtain ⟨rfl, hright⟩ := operator_eq (List.tail_eq_of_cons_eq hop)
    obtain ⟨rfl, hend⟩ := hb.item b' _ _ (.mark (by decide) r) (.mark (by decide) r') hright
    exact ⟨rfl, List.tail_eq_of_cons_eq hend⟩
  · obtain ⟨-, hmark⟩ := ha.item a' _ _ (ends_operator op _) (.mark (by decide) _)
      hrest.symm
    cases hmark

theorem headDetermined_index (ha : a.Determined) (hb : b.Determined) :
    (index a b).HeadDetermined := by
  intro e' r r' hcall _ _ h
  have hrow : e'.lexemes ++ r' = mark '(' :: (a.lexemes ++ mark '[' ::
      (b.lexemes ++ mark ']' :: mark ')' :: r)) := by
    rw [← h, lexemes]
    simp
  have hopen (r : List Lexeme) : Ends (mark '[' :: r) := .mark (by decide) r
  rcases eq_paren hcall hrow with ⟨op', a', rfl, hrest⟩ | ⟨op', a', b', rfl, hrest⟩ |
      ⟨a', b', rfl, hrest⟩
  · exact absurd hrest.symm (ne_unary ha (by decide) (hopen _) op')
  · obtain ⟨-, hmark⟩ := ha.item a' _ _ (hopen _) (ends_operator op' _) hrest.symm
    cases hmark
  · obtain ⟨rfl, hright⟩ := ha.item a' _ _ (hopen _) (hopen _) hrest.symm
    obtain ⟨rfl, hend⟩ := hb.item b' _ _ (.mark (by decide) _) (.mark (by decide) _)
      (List.tail_eq_of_cons_eq hright)
    exact ⟨rfl, List.tail_eq_of_cons_eq (List.tail_eq_of_cons_eq hend)⟩

end Expr

theorem Stmt.determined_bind (x : String) {e : Expr Unit} (he : e.Determined) :
    (Stmt.bind x e).Determined := by
  intro s' r r' _ _ h
  cases s' with
  | bind x' e' =>
    simp only [lexemes, List.cons_append, List.append_assoc, List.nil_append, List.cons.injEq,
      name.injEq, true_and] at h
    obtain ⟨rfl, hrest⟩ := h
    obtain ⟨rfl, hmark⟩ := he.item e' _ _ (.mark (by decide) r) (.mark (by decide) r') hrest
    exact ⟨rfl, List.tail_eq_of_cons_eq hmark⟩
  | ret e' => simp [lexemes] at h
  | expr e' => exact absurd h.symm (e'.lexemes_ne_keyword (.inl rfl))

theorem Stmt.determined_ret {e : Expr Unit} (he : e.Determined) : (Stmt.ret e).Determined := by
  intro s' r r' _ _ h
  cases s' with
  | bind x' e' => simp [lexemes] at h
  | ret e' =>
    simp only [lexemes, List.cons_append, List.append_assoc, List.nil_append, List.cons.injEq,
      true_and] at h
    obtain ⟨rfl, hmark⟩ := he.item e' _ _ (.mark (by decide) r) (.mark (by decide) r') h
    exact ⟨rfl, List.tail_eq_of_cons_eq hmark⟩
  | expr e' => exact absurd h.symm (e'.lexemes_ne_keyword (.inr rfl))

/-- An expression statement has nothing but its expression. -/
theorem Stmt.determined_expr {e : Expr Unit} (he : e.Determined) : (Stmt.expr e).Determined := by
  intro s' r r' hr hr' h
  cases s' with
  | bind x e' => exact absurd h (e.lexemes_ne_keyword (.inl rfl))
  | ret e' => exact absurd h (e.lexemes_ne_keyword (.inr rfl))
  | expr e' =>
    obtain ⟨rfl, rfl⟩ := he.item e' r r' hr hr' h
    exact ⟨rfl, rfl⟩

/-! ## Trees -/

mutual

/-- The row of every expression tells it; the cases are those of the tree. -/
theorem Expr.determined : ∀ e : Expr Unit, e.Determined
  | .ident x => (Expr.headDetermined_ident x).determined
  | .int n => (Expr.headDetermined_int n).determined
  | .str s => (Expr.headDetermined_str s).determined
  | .bool b => (Expr.headDetermined_bool b).determined
  | .array es => (Expr.headDetermined_array (Expr.determined_list es)).determined
  | .unary op a => (Expr.headDetermined_unary a.determined op).determined
  | .binary op a b => (Expr.headDetermined_binary a.determined b.determined op).determined
  | .cond c yes none =>
    (Expr.headDetermined_cond c.determined (Stmt.determined_list yes) (by simp)).determined
  | .cond c yes (some no) =>
    (Expr.headDetermined_cond c.determined (Stmt.determined_list yes) (by
      rintro _ ⟨⟩
      exact Stmt.determined_list no)).determined
  | .fn f => (Expr.headDetermined_fn f.determined).determined
  | .call f es => Expr.determined_call f.determined (Expr.determined_list es)
  | .index a b => (Expr.headDetermined_index a.determined b.determined).determined
termination_by structural e => e

theorem Expr.determined_list : ∀ es : List (Expr Unit), ∀ e ∈ es, e.Determined
  | [] => nofun
  | e :: es => List.forall_mem_cons.2 ⟨e.determined, Expr.determined_list es⟩
termination_by structural es => es

theorem Stmt.determined : ∀ s : Stmt Unit, s.Determined
  | .bind x e => Stmt.determined_bind x e.determined
  | .ret e => Stmt.determined_ret e.determined
  | .expr e => Stmt.determined_expr e.determined
termination_by structural s => s

theorem Stmt.determined_list : ∀ ss : List (Stmt Unit), ∀ s ∈ ss, s.Determined
  | [] => nofun
  | s :: ss => List.forall_mem_cons.2 ⟨s.determined, Stmt.determined_list ss⟩
termination_by structural ss => ss

theorem FnLiteral.determined : ∀ f : FnLiteral Unit, f.Determined
  | ⟨_, _, body⟩ => FnLiteral.determined_of (Stmt.determined_list body)
termination_by structural f => f

end

/-- The lines of statements tell the statements. -/
theorem Stmt.eq_of_lines {c : Char} (hc : c = ' ' ∨ c = '\n') {ss ss' : List (Stmt Unit)}
    (h : [mark c].intercalate (Stmt.rows ss) = [mark c].intercalate (Stmt.rows ss')) :
    ss = ss' := by
  rw [Stmt.rows_eq, Stmt.rows_eq] at h
  have hrow := congrArg (· ++ []) h
  exact ((separable_statements hc).eq (.inl rfl) (.inl rfl) (Stmt.determined_list ss) hrow).1

/-- **Canonical source text is unambiguous.** Programs, blocks, statements and expressions whose
names are all identifiers have the same text only if they are the same. -/
theorem source_injOn :
    Set.InjOn Program.source
      {p : Program Unit | ∀ o ∈ Stmt.occurrencesList p.statements, IsIdentifier o.name} ∧
    Set.InjOn Block.source {b : Block Unit | ∀ o ∈ Stmt.occurrencesList b, IsIdentifier o.name} ∧
    Set.InjOn Stmt.source {s : Stmt Unit | ∀ o ∈ s.occurrences, IsIdentifier o.name} ∧
    Set.InjOn Expr.source {e : Expr Unit | ∀ o ∈ e.occurrences, IsIdentifier o.name} := by
  refine ⟨?_, ?_, ?_, ?_⟩
  · intro p hp q hq h
    have hrow : p.lexemes = q.lexemes := (p.spaced hp).eq_of_chars_eq (q.spaced hq)
      (by rw [p.chars_lexemes, q.chars_lexemes, h])
    exact congrArg Program.mk (Stmt.eq_of_lines (.inr rfl) hrow)
  · intro b hb c hc h
    have hrow : Block.lexemes b = Block.lexemes c :=
      (Block.spaced b hb).eq_of_chars_eq (Block.spaced c hc)
        (by rw [Block.chars_lexemes, Block.chars_lexemes, h])
    exact Stmt.eq_of_lines (.inl rfl) hrow
  · intro s hs t ht h
    have hrow : s.lexemes = t.lexemes := (s.spaced hs).eq_of_chars_eq (t.spaced ht)
      (by rw [s.chars_lexemes, t.chars_lexemes, h])
    have happend := congrArg (· ++ []) hrow
    exact (s.determined t [] [] .nil .nil happend).1
  · intro e he f hf h
    have hrow : e.lexemes = f.lexemes := (e.spaced he).eq_of_chars_eq (f.spaced hf)
      (by rw [e.chars_lexemes, f.chars_lexemes, h])
    have happend := congrArg (· ++ []) hrow
    exact (e.determined.item f [] [] .nil .nil happend).1

/-- A name with a negated operand behind it, and the name called with the negative integer:
`f (-5)` and `f(-5)`. -/
theorem source_injOn_of_a_call :
    let apart : Block Unit := [.expr (.ident "f"), .expr (.unary .neg (.int 5))]
    let called : Block Unit := [.expr (.call (.ident "f") [.int (-5)])]
    (∀ o ∈ Stmt.occurrencesList apart, IsIdentifier o.name) ∧
      (∀ o ∈ Stmt.occurrencesList called, IsIdentifier o.name) ∧
      Block.source apart ≠ Block.source called := by
  intro apart called
  have hapart : ∀ o ∈ Stmt.occurrencesList apart, IsIdentifier o.name := by decide
  have hcalled : ∀ o ∈ Stmt.occurrencesList called, IsIdentifier o.name := by decide
  refine ⟨hapart, hcalled, fun h => ?_⟩
  have heq : apart = called := source_injOn.2.1 hapart hcalled h
  exact absurd heq (by simp [apart, called])

end Monkey
