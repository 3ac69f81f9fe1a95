import Monkey.Proofs.Brackets
import Monkey.Proofs.SchemaReading
import Monkey.Proofs.Writing

/-!
# Monkey — there and back

The document of a tree is read as the tree (`Expr.ofJson?_toJson` and its fellows), given
room for its brackets, by induction over the tree. With the document of a text and the text
of a document this makes the round trip of programs (`Program.decode_encode`). Other texts
are read as programs too; `Program.decoding_normalises` says what becomes of them when the
program is written.
-/

namespace Monkey

/-! ## Trees -/

theorem UnaryOp.ofJson?_symbol (room : Nat) (op : UnaryOp) :
    UnaryOp.ofJson? room (.ofString op.symbol) = some op := by
  have hsymbol : operatorSymbol? room (.ofString op.symbol) = some op.symbol :=
    operatorSymbol?_eq_some_iff.2 (.inl rfl)
  rw [UnaryOp.ofJson?, hsymbol, Option.bind_some, UnaryOp.ofSymbol?_symbol]

theorem BinaryOp.ofJson?_symbol (room : Nat) (op : BinaryOp) :
    BinaryOp.ofJson? room (.ofString op.symbol) = some op := by
  have hsymbol : operatorSymbol? room (.ofString op.symbol) = some op.symbol :=
    operatorSymbol?_eq_some_iff.2 (.inl rfl)
  rw [BinaryOp.ofJson?, hsymbol, Option.bind_some, BinaryOp.ofSymbol?_symbol]

theorem namesOfJson?_ofString (room : Nat) (xs : List String) :
    namesOfJson? (room + 1) (.array (xs.map .ofString)) = some xs := by
  rw [namesOfJson?, Json.items?, Option.bind_eq_bind, Option.bind_some, mapM_eq_some_iff,
    List.forall₂_map_left_iff, List.forall₂_same]
  exact fun _ _ => rfl

namespace Json

@[simp] theorem nesting_ofString (s : String) : (ofString s).nesting = 0 := rfl

end Json

/-- A block is read back if its statements are. -/
theorem Block.ofJson?_toJson_of {b : Block Unit}
    (hb : ∀ room, Json.itemsNesting (Stmt.toJsonList b) ≤ room →
      (Stmt.toJsonList b).mapM (Stmt.ofJson? room) = some b)
    {room : Nat} (h : (Block.toJson b).nesting ≤ room) :
    Block.ofJson? room (Block.toJson b) = some b := by
  have hnesting : (Block.toJson b).nesting = Json.itemsNesting (Stmt.toJsonList b) + 2 := by
    simp [Block.toJson, Json.ofMembers, Json.nesting, Json.membersNesting]
  obtain ⟨room, rfl⟩ : ∃ n, room = n + 2 := ⟨room - 2, by omega⟩
  exact hb room (by omega)

mutual

/-- An expression is read back from its document, if there is room for what it nests. -/
theorem Expr.ofJson?_toJson : ∀ (e : Expr Unit) (room : Nat), e.toJson.nesting ≤ room →
    Expr.ofJson? room e.toJson = some e
  | .ident x, room, h => by
    obtain ⟨room, rfl⟩ : ∃ n, room = n + 1 := Nat.exists_eq_add_of_le' h
    rfl
  | .int n, room, h => by
    obtain ⟨room, rfl⟩ : ∃ n, room = n + 1 := Nat.exists_eq_add_of_le' h
    calc Expr.ofJson? (room + 1) (Expr.int n).toJson
      _ = (Json.ofInt n.toInt).int64?.bind fun n => some (.int n) := rfl
      _ = some (.int n) := by rw [Json.int64?_ofInt, Option.bind_some]
  | .str x, room, h => by
    obtain ⟨room, rfl⟩ : ∃ n, room = n + 1 := Nat.exists_eq_add_of_le' h
    rfl
  | .bool b, room, h => by
    obtain ⟨room, rfl⟩ : ∃ n, room = n + 1 := Nat.exists_eq_add_of_le' h
    rfl
  | .array es, room, h => by
    have hnesting : (Expr.array es).toJson.nesting =
        Json.itemsNesting (Expr.toJsonList es) + 2 := by
      simp [Expr.toJson, Json.ofMembers, Json.nesting, Json.membersNesting]
    obtain ⟨room, rfl⟩ : ∃ n, room = n + 2 := ⟨room - 2, by omega⟩
    have hes := Expr.mapM_ofJson?_toJsonList es room (by omega)
    calc Expr.ofJson? (room + 2) (Expr.array es).toJson
      _ = ((Expr.toJsonList es).mapM (Expr.ofJson? room)).bind fun es => some (.array es) := rfl
      _ = some (.array es) := by rw [hes, Option.bind_some]
  | .unary op e, room, h => by
    have hnesting : (Expr.unary op e).toJson.nesting = e.toJson.nesting + 2 := by
      simp [Expr.toJson, Json.ofMembers, Json.nesting, Json.membersNesting]
    obtain ⟨room, rfl⟩ : ∃ n, room = n + 2 := ⟨room - 2, by omega⟩
    have he := e.ofJson?_toJson room (by omega)
    calc Expr.ofJson? (room + 2) (Expr.unary op e).toJson
      _ = (UnaryOp.ofJson? room (.ofString op.symbol)).bind fun op =>
          (Expr.ofJson? room e.toJson).bind fun e => some (.unary op e) := rfl
      _ = some (.unary op e) := by
        rw [UnaryOp.ofJson?_symbol, he, Option.bind_some, Option.bind_some]
  | .binary op l r, room, h => by
    have hnesting : (Expr.binary op l r).toJson.nesting =
        max l.toJson.nesting r.toJson.nesting + 2 := by
      simp [Expr.toJson, Json.ofMembers, Json.nesting, Json.membersNesting]
    obtain ⟨room, rfl⟩ : ∃ n, room = n + 2 := ⟨room - 2, by omega⟩
    have hl := l.ofJson?_toJson room (by omega)
    have hr := r.ofJson?_toJson room (by omega)
    calc Expr.ofJson? (room + 2) (Expr.binary op l r).toJson
      _ = (BinaryOp.ofJson? room (.ofString op.symbol)).bind fun op =>
          (Expr.ofJson? room l.toJson).bind fun l =>
            (Expr.ofJson? room r.toJson).bind fun r => some (.binary op l r) := rfl
      _ = some (.binary op l r) := by
        rw [BinaryOp.ofJson?_symbol, hl, hr, Option.bind_some, Option.bind_some, Option.bind_some]
  | .cond c yes none, room, h => by
    have hnesting : (Expr.cond c yes none).toJson.nesting =
        max c.toJson.nesting (Block.toJson yes).nesting + 2 := by
      simp [Expr.toJson, Block.toJson, Json.ofMembers, Json.nesting, Json.membersNesting]
    obtain ⟨room, rfl⟩ : ∃ n, room = n + 2 := ⟨room - 2, by omega⟩
    have hc := c.ofJson?_toJson room (by omega)
    have hyes := Block.ofJson?_toJson_of (Stmt.mapM_ofJson?_toJsonList yes) (show _ ≤ room by omega)
    calc Expr.ofJson? (room + 2) (Expr.cond c yes none).toJson
      _ = (Expr.ofJson? room c.toJson).bind fun c =>
          (Block.ofJson? room (Block.toJson yes)).bind fun yes => some (.cond c yes none) := rfl
      _ = some (.cond c yes none) := by rw [hc, hyes, Option.bind_some, Option.bind_some]
  | .cond c yes (some no), room, h => by
    have hnesting : (Expr.cond c yes (some no)).toJson.nesting =
        max c.toJson.nesting (max (Block.toJson yes).nesting (Block.toJson no).nesting) + 2 := by
      simp [Expr.toJson, Block.toJson, Json.ofMembers, Json.nesting, Json.membersNesting]
    obtain ⟨room, rfl⟩ : ∃ n, room = n + 2 := ⟨room - 2, by omega⟩
    have hc := c.ofJson?_toJson room (by omega)
    have hyes := Block.ofJson?_toJson_of (Stmt.mapM_ofJson?_toJsonList yes) (show _ ≤ room by omega)
    have hno := Block.ofJson?_toJson_of (Stmt.mapM_ofJson?_toJsonList no) (show _ ≤ room by omega)
    calc Expr.ofJson? (room + 2) (Expr.cond c yes (some no)).toJson
      _ = (Expr.ofJson? room c.toJson).bind fun c =>
          (Block.ofJson? room (Block.toJson yes)).bind fun yes =>
            (Block.ofJson? room (Block.toJson no)).bind fun no =>
              some (.cond c yes (some no)) := rfl
      _ = some (.cond c yes (some no)) := by
        rw [hc, hyes, hno, Option.bind_some, Option.bind_some, Option.bind_some]
  | .fn f, room, h => by
    have hnesting : (Expr.fn f).toJson.nesting = f.toJson.nesting + 1 := by
      simp [Expr.toJson, Json.ofMembers, Json.nesting, Json.membersNesting]
    obtain ⟨room, rfl⟩ : ∃ n, room = n + 1 := ⟨room - 1, by omega⟩
    have hf := f.ofJson?_toJson room (by omega)
    calc Expr.ofJson? (room + 1) (Expr.fn f).toJson
      _ = (FnLiteral.ofJson? room f.toJson).bind fun f => some (.fn f) := rfl
      _ = some (.fn f) := by rw [hf, Option.bind_some]
  | .call f es, room, h => by
    have hnesting : (Expr.call f es).toJson.nesting =
        max f.toJson.nesting (Json.itemsNesting (Expr.toJsonList es) + 1) + 2 := by
      simp [Expr.toJson, Json.ofMembers, Json.nesting, Json.membersNesting]
    obtain ⟨room, rfl⟩ : ∃ n, room = n + 3 := ⟨room - 3, by omega⟩
    have hf := f.ofJson?_toJson (room + 1) (by omega)
    have hes := Expr.mapM_ofJson?_toJsonList es room (by omega)
    calc Expr.ofJson? (room + 3) (Expr.call f es).toJson
      _ = (Expr.ofJson? (room + 1) f.toJson).bind fun f =>
          ((Expr.toJsonList es).mapM (Expr.ofJson? room)).bind fun es => some (.call f es) := rfl
      _ = some (.call f es) := by rw [hf, hes, Option.bind_some, Option.bind_some]
  | .index l i, room, h => by
    have hnesting : (Expr.index l i).toJson.nesting =
        max l.toJson.nesting i.toJson.nesting + 2 := by
      simp [Expr.toJson, Json.ofMembers, Json.nesting, Json.membersNesting]
    obtain ⟨room, rfl⟩ : ∃ n, room = n + 2 := ⟨room - 2, by omega⟩
    have hl := l.ofJson?_toJson room (by omega)
    have hi := i.ofJson?_toJson room (by omega)
    calc Expr.ofJson? (room + 2) (Expr.index l i).toJson
      _ = (Expr.ofJson? room l.toJson).bind fun l =>
          (Expr.ofJson? room i.toJson).bind fun i => some (.index l i) := rfl
      _ = some (.index l i) := by rw [hl, hi, Option.bind_some, Option.bind_some]
termination_by structural e => e

theorem Expr.mapM_ofJson?_toJsonList : ∀ (es : List (Expr Unit)) (room : Nat),
    Json.itemsNesting (Expr.toJsonList es) ≤ room →
    (Expr.toJsonList es).mapM (Expr.ofJson? room) = some es
  | [], _, _ => rfl
  | e :: es, room, h => by
    rw [Expr.toJsonList, Json.itemsNesting] at h
    have he := e.ofJson?_toJson room (by omega)
    have hes := Expr.mapM_ofJson?_toJsonList es room (by omega)
    rw [Expr.toJsonList, List.mapM_cons, he, hes]
    rfl
termination_by structural es => es

/-- The same of statements. -/
theorem Stmt.ofJson?_toJson : ∀ (s : Stmt Unit) (room : Nat), s.toJson.nesting ≤ room →
    Stmt.ofJson? room s.toJson = some s
  | .bind x e, room, h => by
    have hnesting : (Stmt.bind x e).toJson.nesting = e.toJson.nesting + 2 := by
      simp [Stmt.toJson, Json.ofMembers, Json.nesting, Json.membersNesting]
    obtain ⟨room, rfl⟩ : ∃ n, room = n + 2 := ⟨room - 2, by omega⟩
    have he := e.ofJson?_toJson room (by omega)
    calc Stmt.ofJson? (room + 2) (Stmt.bind x e).toJson
      _ = (Expr.ofJson? room e.toJson).bind fun e => some (.bind x e) := rfl
      _ = some (.bind x e) := by rw [he, Option.bind_some]
  | .ret e, room, h => by
    have hnesting : (Stmt.ret e).toJson.nesting = e.toJson.nesting + 1 := by
      simp [Stmt.toJson, Json.ofMembers, Json.nesting, Json.membersNesting]
    obtain ⟨room, rfl⟩ : ∃ n, room = n + 1 := ⟨room - 1, by omega⟩
    have he := e.ofJson?_toJson room (by omega)
    calc Stmt.ofJson? (room + 1) (Stmt.ret e).toJson
      _ = (Expr.ofJson? room e.toJson).bind fun e => some (.ret e) := rfl
      _ = some (.ret e) := by rw [he, Option.bind_some]
  | .expr e, room, h => by
    have hnesting : (Stmt.expr e).toJson.nesting = e.toJson.nesting + 1 := by
      simp [Stmt.toJson, Json.ofMembers, Json.nesting, Json.membersNesting]
    obtain ⟨room, rfl⟩ : ∃ n, room = n + 1 := ⟨room - 1, by omega⟩
    have he := e.ofJson?_toJson room (by omega)
    calc Stmt.ofJson? (room + 1) (Stmt.expr e).toJson
      _ = (Expr.ofJson? room e.toJson).bind fun e => some (.expr e) := rfl
      _ = some (.expr e) := by rw [he, Option.bind_some]
termination_by structural s => s

theorem Stmt.mapM_ofJson?_toJsonList : ∀ (ss : List (Stmt Unit)) (room : Nat),
    Json.itemsNesting (Stmt.toJsonList ss) ≤ room →
    (Stmt.toJsonList ss).mapM (Stmt.ofJson? room) = some ss
  | [], _, _ => rfl
  | s :: ss, room, h => by
    rw [Stmt.toJsonList, Json.itemsNesting] at h
    have hs := s.ofJson?_toJson room (by omega)
    have hss := Stmt.mapM_ofJson?_toJsonList ss room (by omega)
    rw [Stmt.toJsonList, List.mapM_cons, hs, hss]
    rfl
termination_by structural ss => ss

theorem FnLiteral.ofJson?_toJson : ∀ (f : FnLiteral Unit) (room : Nat), f.toJson.nesting ≤ room →
    FnLiteral.ofJson? room f.toJson = some f
  | ⟨(), ps, body⟩, room, h => by
    have hnesting : (FnLiteral.mk () ps body).toJson.nesting =
        max (Json.itemsNesting (ps.map .ofString) + 1) (Block.toJson body).nesting + 1 := by
      simp [FnLiteral.toJson, Block.toJson, Json.ofMembers, Json.nesting, Json.membersNesting]
    obtain ⟨room, rfl⟩ : ∃ n, room = n + 2 := ⟨room - 2, by omega⟩
    have hps := namesOfJson?_ofString room ps
    have hbody := Block.ofJson?_toJson_of (Stmt.mapM_ofJson?_toJsonList body)
      (show _ ≤ room + 1 by omega)
    calc FnLiteral.ofJson? (room + 2) (FnLiteral.mk () ps body).toJson
      _ = (namesOfJson? (room + 1) (.array (ps.map .ofString))).bind fun ps =>
          (Block.ofJson? (room + 1) (Block.toJson body)).bind fun body => some ⟨(), ps, body⟩ := rfl
      _ = some ⟨(), ps, body⟩ := by rw [hps, hbody, Option.bind_some, Option.bind_some]
termination_by structural f => f

end

/-! ## Canonical forms -/

namespace Form

/-- A canonical form has a text. -/
theorem spellable_of_normal? {n : Nat} {f : Form} {v c : Json} (h : normal? n f v = some c) :
    c.Spellable := by
  induction n using Nat.strongRecOn generalizing f v c with
  | ind n ih =>
  cases f with
  | text =>
    rw [normal?_text] at h
    obtain ⟨s, -, rfl⟩ := Option.map_eq_some_iff.1 h
    exact Json.spellable_ofString s
  | integer =>
    rw [normal?_integer] at h
    obtain ⟨n, -, rfl⟩ := Option.map_eq_some_iff.1 h
    exact Json.spellable_ofInt n.toInt
  | truth =>
    rw [normal?_truth] at h
    obtain ⟨b, -, rfl⟩ := Option.map_eq_some_iff.1 h
    exact Json.spellable_bool b
  | operator symbols =>
    obtain ⟨s, -, -, rfl⟩ := normal?_operator_iff.1 h
    exact Json.spellable_ofString s
  | list f =>
    obtain _ | n := n
    · cases h
    obtain ⟨vs, ws, -, hws, rfl⟩ := normal?_list_iff.1 h
    refine Json.spellable_array_iff.2 fun w hw => ?_
    obtain ⟨v, -, hv⟩ := exists_mem_zip_of_forall₂ hws.flip hw
    exact ih n (Nat.lt_succ_self n) hv
  | record r =>
    obtain _ | n := n
    · cases h
    obtain ⟨vs, ws, -, hws, rfl⟩ := normal?_record_iff.1 h
    refine Json.spellable_object_iff.2 ?_
    rintro ⟨key, w⟩ hm
    obtain ⟨hkey, hw⟩ := List.of_mem_zip hm
    obtain ⟨name, -, rfl⟩ := List.mem_map.1 hkey
    refine ⟨Json.spellable_ofString name, ?_⟩
    obtain ⟨⟨field, v?⟩, -, hv⟩ := exists_mem_zip_of_forall₂ hws.flip hw
    rcases Field.normal?_eq_some_iff.1 hv with ⟨-, -, rfl⟩ | ⟨v, -, -, hv⟩
    · exact Json.spellable_null
    · exact ih n (Nat.lt_succ_self n) hv
  | variant x =>
    obtain _ | n := n
    · cases h
    obtain ⟨tag, content, f, d, -, -, hd, rfl⟩ := normal?_variant_iff.1 h
    refine Json.spellable_object_iff.2 fun m hm => ?_
    obtain rfl := List.mem_singleton.1 hm
    exact ⟨Json.spellable_ofString tag, ih n (Nat.lt_succ_self n) hd⟩

end Form

/-! ## Programs -/

namespace Program

variable {p q : Program Unit}

/-- A program is read back from its document if the document fits. -/
theorem ofJson?_toJson {room : Nat} (h : p.toJson.nesting ≤ room) :
    ofJson? room p.toJson = some p := by
  have hblock : Block.ofJson? room (Block.toJson p.statements) = some p.statements :=
    Block.ofJson?_toJson_of (Stmt.mapM_ofJson?_toJsonList p.statements) h
  rw [ofJson?, toJson, hblock]
  rfl

/-- The document of a program is its own canonical form. -/
theorem normal?_toJson {room : Nat} (h : p.toJson.nesting ≤ room) :
    Form.normal? room .program p.toJson = some p.toJson := by
  rw [← map_toJson_ofJson?, ofJson?_toJson h, Option.map_some]

/-- Programs with one document are one program. -/
theorem toJson_injective : Function.Injective (toJson : Program Unit → Json) := by
  intro p q h
  have hp : ofJson? p.toJson.nesting p.toJson = some p := ofJson?_toJson le_rfl
  have hq : ofJson? q.toJson.nesting q.toJson = some q := ofJson?_toJson le_rfl
  rw [h] at hp
  exact Option.some.inj (hp.symm.trans hq)

theorem encode_spelled (p : Program Unit) : p.toJson.Spelled p.encode :=
  Json.compact_spelled (Form.spellable_of_normal? (normal?_toJson le_rfl))

/-- And so are programs with one encoding. -/
theorem encode_injective : Function.Injective (encode : Program Unit → String) := by
  intro p q h
  have hp : Json.parse? p.encode = some p.toJson := Json.parse?_eq_some_iff.2 p.encode_spelled
  have hq : Json.parse? q.encode = some q.toJson := Json.parse?_eq_some_iff.2 q.encode_spelled
  rw [h] at hp
  exact toJson_injective (Option.some.inj (hp.symm.trans hq))

/-- The text of a program reads back as the program if its brackets nest no deeper than those of
a document may. -/
theorem decode?_encode_of_le (h : Json.textNesting p.encode ≤ documentNesting) :
    decode? p.encode = some p := by
  have hparse : Json.parse? p.encode = some p.toJson := Json.parse?_eq_some_iff.2 p.encode_spelled
  rw [p.encode_spelled.textNesting_eq] at h
  rw [decode?, hparse, Option.bind_some, ofJson?_toJson h]

/-- **The text of a program reads back as the program, as deep as documents may nest.** One
whose brackets nest deeper is refused. -/
theorem decode_encode (p : Program Unit) :
    decode? p.encode = if Json.textNesting p.encode ≤ 127 then some p else none := by
  have hparse : Json.parse? p.encode = some p.toJson := Json.parse?_eq_some_iff.2 p.encode_spelled
  rw [decode?, hparse, Option.bind_some, p.encode_spelled.textNesting_eq]
  split
  · next h => exact ofJson?_toJson h
  · next h =>
    rw [Option.eq_none_iff_forall_ne_some]
    intro q hq
    have hnormal : Form.normal? documentNesting .program p.toJson = some q.toJson := by
      rw [← map_toJson_ofJson?, hq, Option.map_some]
    -- a document that is read fits, and that of a program nests as deep as what is looked at in it
    have hfits := Form.nestingAs_le_of_normal? hnormal
    have hself := Form.normal?_of_nestingAs_le (normal?_toJson (p := p) le_rfl) hfits
    exact h (Form.nesting_le_of_normal? hself)

/-- A text reads as a program if the canonical form of its document is the document of the
program. -/
theorem decode?_eq_some_iff {text : String} : decode? text = some p ↔
    ∃ v : Json, v.Spelled text ∧ Form.normal? documentNesting .program v = some p.toJson := by
  rw [decode?, Option.bind_eq_some_iff]
  refine exists_congr fun v => and_congr Json.parse?_eq_some_iff ?_
  rw [← map_toJson_ofJson?, Option.map_eq_some_iff]
  constructor
  · exact fun h => ⟨p, h, rfl⟩
  · rintro ⟨q, hq, hpq⟩
    rwa [← toJson_injective hpq]

/-- **Reading a text and writing the program normalises the text.** The text written nests no
deeper than what was looked at in the first one, so it is read again, as the same program; and
what two texts are read as is the same if and only if it is written the same. -/
theorem decoding_normalises {text : String} (h : decode? text = some p) :
    (∃ v : Json, v.Spelled text ∧ Json.textNesting p.encode ≤ v.nestingAs .program ∧
      v.nestingAs .program ≤ Json.textNesting text) ∧
    decode? p.encode = some p ∧
    ∀ (text' : String) (q : Program Unit), decode? text' = some q →
      (p = q ↔ p.encode = q.encode) := by
  obtain ⟨v, hv, hnormal⟩ := decode?_eq_some_iff.1 h
  have hfits : v.nestingAs .program ≤ documentNesting := Form.nestingAs_le_of_normal? hnormal
  have hle : Json.textNesting p.encode ≤ v.nestingAs .program := by
    rw [p.encode_spelled.textNesting_eq]
    exact Form.nesting_le_of_normal? (Form.normal?_of_nestingAs_le hnormal le_rfl)
  refine ⟨⟨v, hv, hle, ?_⟩, ?_, ?_⟩
  · rw [hv.textNesting_eq]
    exact v.nestingAs_le_nesting .program
  · exact decode?_encode_of_le (hle.trans hfits)
  · exact fun _ q _ => encode_injective.eq_iff.symm

/-- An operator as an object, fields in another order and as an array, and a member that is no
field. -/
theorem decoding_normalises_another_spelling :
    decode? "[[\x7b\x22Expression\x22: \x7b\x22Prefix\x22: \x7b\x22right\x22:
      \x7b\x22Identifier\x22: \x22a\x22\x7d, \x22op\x22: \x7b\x22-\x22: null\x7d,
      \x22x\x22: [[]]\x7d\x7d\x7d]]" = some ⟨[.expr (.unary .neg (.ident "a"))]⟩ ∧
    decode? (encode (⟨[.expr (.unary .neg (.ident "a"))]⟩ : Program Unit)) =
      some ⟨[.expr (.unary .neg (.ident "a"))]⟩ := by
  have hnormal : Form.normal? 6 .program (.array [.array [.object [(some "Expression",
      .object [(some "Prefix", .object [
        (some "right", .object [(some "Identifier", .string (some "a"))]),
        (some "op", .object [(some "-", .null)]),
        (some "x", .array [.array []])])])]]]) =
      some (toJson (⟨[.expr (.unary .neg (.ident "a"))]⟩ : Program Unit)) := rfl
  suffices h : decode? _ = some _ from ⟨h, (decoding_normalises h).2.1⟩
  refine decode?_eq_some_iff.2 ⟨_, Json.parse?_eq_some_iff.1 ?_,
    Form.normal?_of_nestingAs_le hnormal (by decide)⟩
  rfl

end Program

end Monkey
