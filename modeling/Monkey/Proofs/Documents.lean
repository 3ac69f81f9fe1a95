import Monkey.Proofs.Scanning

/-!
# Monkey — reading documents

A row of tokens is read as a document exactly if it is the document's row
(`Json.ofTokens?_eq_some_iff`), and a text is read as a document exactly if it holds it
(`Json.parse?_eq_some_iff`). So a text holds one document at most. The text that a document
is written as holds it, if its numbers are numbers.
-/

namespace Monkey.Json

/-! ## What a reader has read -/

/-- The tokens of a member. -/
def memberRow (m : Option String × Json) : List Token := .string m.1 :: .colon :: m.2.tokens

theorem itemTokens_concat (vs : List Json) (v : Json) :
    itemTokens (vs ++ [v]) =
      .comma :: ((vs.flatMap fun v => v.tokens ++ [.comma]) ++ v.tokens) := by
  induction vs with
  | nil => simp [itemTokens]
  | cons w vs ih => simp [itemTokens, ih]

theorem memberTokens_concat (ms : List (Option String × Json)) (m : Option String × Json) :
    memberTokens (ms ++ [m]) =
      .comma :: ((ms.flatMap fun m => memberRow m ++ [.comma]) ++ memberRow m) := by
  induction ms with
  | nil => simp [memberTokens, memberRow]
  | cons n ms ih => simp [memberTokens, memberRow, ih]

/-- The tokens of an array whose last item is known. -/
theorem tokens_array_concat (vs : List Json) (v : Json) : (array (vs ++ [v])).tokens =
    .openBracket :: (vs.flatMap fun v => v.tokens ++ [.comma]) ++ v.tokens ++ [.closeBracket] := by
  cases vs with
  | nil => simp [tokens, itemTokens]
  | cons w vs => simp [tokens, itemTokens_concat]

/-- The tokens of an object whose last member is known. -/
theorem tokens_object_concat (ms : List (Option String × Json)) (m : Option String × Json) :
    (object (ms ++ [m])).tokens =
      .openBrace :: (ms.flatMap fun m => memberRow m ++ [.comma]) ++ memberRow m ++
        [.closeBrace] := by
  cases ms with
  | nil => simp [tokens, memberTokens, memberRow]
  | cons n ms => simp [tokens, memberTokens_concat, memberRow]

/-- The tokens of an open bracket and of what has been read inside it. -/
def Open.tokens : Open → List Token
  | .array items => .openBracket :: items.reverse.flatMap fun v => v.tokens ++ [.comma]
  | .object members key =>
    .openBrace :: (members.reverse.flatMap fun m => memberRow m ++ [.comma]) ++
      [.string key, .colon]

/-- The tokens of open brackets, innermost first. -/
def Open.rows (opened : List Open) : List Token := opened.reverse.flatMap Open.tokens

theorem Open.rows_cons (o : Open) (opened : List Open) :
    Open.rows (o :: opened) = Open.rows opened ++ o.tokens := by
  rw [rows, rows, List.reverse_cons, List.flatMap_append, List.flatMap_singleton]

namespace Reader

/-- The tokens that a reader has read. -/
def tokens : Reader → List Token
  | .value _ opened => Open.rows opened
  | .key _ members opened => Open.rows opened ++
      .openBrace :: members.reverse.flatMap fun m => memberRow m ++ [.comma]
  | .colon members k opened => Open.rows opened ++
      .openBrace :: (members.reverse.flatMap fun m => memberRow m ++ [.comma]) ++ [.string k]
  | .after v opened => Open.rows opened ++ v.tokens

/-- Right after an opening brace no member has been read. -/
def Sound : Reader → Prop
  | .key true members _ => members = []
  | _ => True

/-- One more token. -/
theorem Sound.step? {r r' : Reader} {t : Token} (h : r.Sound) (hstep : r.step? t = some r') :
    r'.Sound ∧ r'.tokens = r.tokens ++ [t] := by
  unfold Reader.step? at hstep
  split at hstep <;> cases hstep
  · exact ⟨trivial, rfl⟩
  · exact ⟨trivial, rfl⟩
  · exact ⟨trivial, rfl⟩
  · exact ⟨trivial, rfl⟩
  · exact ⟨trivial, Open.rows_cons _ _⟩
  · exact ⟨rfl, rfl⟩
  · refine ⟨trivial, ?_⟩
    simp [tokens, Open.rows_cons, Open.tokens, Json.tokens]
  · exact ⟨trivial, by simp [tokens]⟩
  · obtain rfl : _ = [] := h
    exact ⟨trivial, by simp [tokens, Json.tokens]⟩
  · exact ⟨trivial, by simp [tokens, Open.rows_cons, Open.tokens]⟩
  · exact ⟨trivial, by simp [tokens, Open.rows_cons, Open.tokens]⟩
  · refine ⟨trivial, ?_⟩
    rw [tokens, List.reverse_cons, tokens_array_concat]
    simp [tokens, Open.rows_cons, Open.tokens]
  · exact ⟨trivial, by simp [tokens, Open.rows_cons, Open.tokens, memberRow]⟩
  · refine ⟨trivial, ?_⟩
    rw [tokens, List.reverse_cons, tokens_object_concat]
    simp [tokens, Open.rows_cons, Open.tokens, memberRow]

theorem Sound.foldlM {r r' : Reader} {ts : List Token} (h : r.Sound)
    (hread : ts.foldlM Reader.step? r = some r') : r'.tokens = r.tokens ++ ts := by
  induction ts generalizing r with
  | nil =>
    cases hread
    exact (List.append_nil _).symm
  | cons t ts ih =>
    rw [List.foldlM_cons] at hread
    obtain ⟨next, hnext, hread⟩ := Option.bind_eq_some_iff.1 hread
    obtain ⟨hsound, htokens⟩ := h.step? hnext
    rw [ih hsound hread, htokens, List.append_assoc, List.singleton_append]

end Reader

/-! ## Reading the tokens of a document -/

mutual

/-- A document is read from its tokens, whatever stands behind them. -/
theorem foldlM_tokens : ∀ (v : Json) (first : Bool) (opened : List Open) (ts : List Token),
    (v.tokens ++ ts).foldlM Reader.step? (.value first opened) =
      ts.foldlM Reader.step? (.after v opened)
  | null, _, _, _ | bool _, _, _, _ | number _, _, _, _ | string _, _, _, _ => rfl
  | array [], _, _, _ => rfl
  | array (v :: vs), first, opened, ts => by
    have hopen : Reader.step? (.value first opened) .openBracket =
        some (.value true (.array [] :: opened)) := rfl
    rw [tokens]
    simp only [List.cons_append, List.append_assoc, List.foldlM_cons, hopen, Option.bind_eq_bind,
      Option.bind_some]
    -- the first item is read in the open array, the others behind it
    rw [foldlM_tokens v]
    exact foldlM_itemTokens vs v [] opened ts
  | object [], _, _, _ => rfl
  | object ((k, v) :: ms), first, opened, ts => by
    have hopen : Reader.step? (.value first opened) .openBrace = some (.key true [] opened) := rfl
    have hkey : Reader.step? (.key true [] opened) (.string k) = some (.colon [] k opened) := rfl
    have hcolon : Reader.step? (.colon [] k opened) .colon =
        some (.value false (.object [] k :: opened)) := rfl
    rw [tokens]
    simp only [List.cons_append, List.append_assoc, List.foldlM_cons, hopen, hkey, hcolon,
      Option.bind_eq_bind, Option.bind_some]
    rw [foldlM_tokens v]
    exact foldlM_memberTokens ms k v [] opened ts
termination_by structural v => v

/-- The items that are still to come are read behind those that have been, up to the bracket. -/
theorem foldlM_itemTokens : ∀ (vs : List Json) (v : Json) (items : List Json) (opened : List Open)
    (ts : List Token), (itemTokens vs ++ .closeBracket :: ts).foldlM Reader.step?
      (.after v (.array items :: opened)) =
      ts.foldlM Reader.step? (.after (.array (items.reverse ++ v :: vs)) opened)
  | [], v, items, opened, ts => by
    simp [itemTokens, Reader.step?]
  | w :: vs, v, items, opened, ts => by
    have hcomma : Reader.step? (.after v (.array items :: opened)) .comma =
        some (.value false (.array (v :: items) :: opened)) := rfl
    rw [itemTokens]
    simp only [List.cons_append, List.append_assoc, List.foldlM_cons, hcomma, Option.bind_eq_bind,
      Option.bind_some]
    rw [foldlM_tokens w, foldlM_itemTokens vs w, List.reverse_cons, List.append_assoc,
      List.singleton_append]
termination_by structural vs => vs

/-- So are the members of an object. -/
theorem foldlM_memberTokens : ∀ (ms : List (Option String × Json)) (k : Option String) (v : Json)
    (members : List (Option String × Json)) (opened : List Open) (ts : List Token),
    (memberTokens ms ++ .closeBrace :: ts).foldlM Reader.step?
      (.after v (.object members k :: opened)) =
      ts.foldlM Reader.step? (.after (.object (members.reverse ++ (k, v) :: ms)) opened)
  | [], k, v, members, opened, ts => by
    simp [memberTokens, Reader.step?]
  | (k', w) :: ms, k, v, members, opened, ts => by
    have hcomma : Reader.step? (.after v (.object members k :: opened)) .comma =
        some (.key false ((k, v) :: members) opened) := rfl
    have hkey : Reader.step? (.key false ((k, v) :: members) opened) (.string k') =
        some (.colon ((k, v) :: members) k' opened) := rfl
    have hcolon : Reader.step? (.colon ((k, v) :: members) k' opened) .colon =
        some (.value false (.object ((k, v) :: members) k' :: opened)) := rfl
    rw [memberTokens]
    simp only [List.cons_append, List.append_assoc, List.foldlM_cons, hcomma, hkey, hcolon,
      Option.bind_eq_bind, Option.bind_some]
    rw [foldlM_tokens w, foldlM_memberTokens ms k' w, List.reverse_cons, List.append_assoc,
      List.singleton_append]
termination_by structural ms => ms

end

/-- A row of tokens is read as a document exactly if it is the document's row. -/
theorem ofTokens?_eq_some_iff {ts : List Token} {v : Json} :
    ofTokens? ts = some v ↔ ts = v.tokens := by
  constructor
  · intro h
    obtain ⟨r, hread, hfinish⟩ := Option.bind_eq_some_iff.1 h
    have hstart : (Reader.value false []).Sound := trivial
    have htokens := hstart.foldlM hread
    unfold Reader.finish? at hfinish
    split at hfinish <;> cases hfinish
    exact htokens.symm
  · rintro rfl
    have hread := foldlM_tokens v false [] []
    rw [List.append_nil] at hread
    rw [ofTokens?, hread]
    rfl

/-! ## Reading a text -/

/-- A token that is no number may be followed by any other. -/
theorem isChain_cons {t : Token} {ts : List Token} (ht : ∀ lexeme, t ≠ .number lexeme)
    (hts : ts.IsChain Token.Parted) : (t :: ts).IsChain Token.Parted :=
  List.isChain_cons.2 ⟨fun _ _ h => absurd h.choose_spec (ht _), hts⟩

/-- Tokens may be followed by others of which the first ends a number. -/
theorem isChain_append {ts us : List Token} (hts : ts.IsChain Token.Parted)
    (hus : us.IsChain Token.Parted) (hends : ∀ u ∈ us.head?, u.EndsNumber) :
    (ts ++ us).IsChain Token.Parted :=
  hts.append hus fun _ _ u hu _ => hends u hu

theorem endsNumber_head_itemTokens (vs : List Json) {u : Token} (hu : u.EndsNumber) :
    ∀ t ∈ (itemTokens vs ++ [u]).head?, t.EndsNumber := by
  intro t ht
  cases vs with
  | nil =>
    cases ht
    exact hu
  | cons v vs =>
    cases ht
    exact .inl rfl

theorem endsNumber_head_memberTokens (ms : List (Option String × Json)) {u : Token}
    (hu : u.EndsNumber) : ∀ t ∈ (memberTokens ms ++ [u]).head?, t.EndsNumber := by
  intro t ht
  cases ms with
  | nil =>
    cases ht
    exact hu
  | cons m ms =>
    cases ht
    exact .inl rfl

mutual

/-- In the row of a document a number is followed by what ends it. -/
theorem tokens_isChain : ∀ v : Json, v.tokens.IsChain Token.Parted
  | null | bool _ | number _ | string _ => .singleton _
  | array [] => isChain_cons nofun (.singleton _)
  | array (v :: vs) => by
    have hclose : Token.EndsNumber .closeBracket := .inr (.inl rfl)
    rw [tokens, List.cons_append, List.cons_append, List.append_assoc]
    exact isChain_cons nofun (isChain_append v.tokens_isChain (itemTokens_isChain vs hclose)
      (endsNumber_head_itemTokens vs hclose))
  | object [] => isChain_cons nofun (.singleton _)
  | object ((k, v) :: ms) => by
    have hclose : Token.EndsNumber .closeBrace := .inr (.inr rfl)
    rw [tokens]
    simp only [List.cons_append, List.append_assoc]
    exact isChain_cons nofun (isChain_cons nofun (isChain_cons nofun (isChain_append
      v.tokens_isChain (memberTokens_isChain ms hclose) (endsNumber_head_memberTokens ms hclose))))
termination_by structural v => v

/-- Between items there is a comma, so no two tokens are run together. -/
theorem itemTokens_isChain : ∀ (vs : List Json) {u : Token}, u.EndsNumber →
    (itemTokens vs ++ [u]).IsChain Token.Parted
  | [], _, _ => .singleton _
  | v :: vs, u, hu => by
    rw [itemTokens, List.cons_append, List.cons_append, List.append_assoc]
    exact isChain_cons nofun (isChain_append v.tokens_isChain (itemTokens_isChain vs hu)
      (endsNumber_head_itemTokens vs hu))
termination_by structural vs => vs

theorem memberTokens_isChain : ∀ (ms : List (Option String × Json)) {u : Token}, u.EndsNumber →
    (memberTokens ms ++ [u]).IsChain Token.Parted
  | [], _, _ => .singleton _
  | (k, v) :: ms, u, hu => by
    rw [memberTokens]
    simp only [List.cons_append, List.append_assoc]
    exact isChain_cons nofun (isChain_cons nofun (isChain_cons nofun (isChain_append
      v.tokens_isChain (memberTokens_isChain ms hu) (endsNumber_head_memberTokens ms hu))))
termination_by structural ms => ms

end

/-- A text is read as a document exactly if it holds it. -/
theorem parse?_eq_some_iff {text : String} {v : Json} : parse? text = some v ↔ v.Spelled text := by
  constructor
  · intro h
    obtain ⟨ts, hts, hv⟩ := Option.bind_eq_some_iff.1 h
    cases ofTokens?_eq_some_iff.1 hv
    exact Layout.of_scan? hts
  · intro h
    exact Option.bind_eq_some_iff.2
      ⟨v.tokens, h.scan? v.tokens_isChain, ofTokens?_eq_some_iff.2 rfl⟩

end Monkey.Json
