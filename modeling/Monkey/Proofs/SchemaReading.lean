import Monkey.Proofs.Normalisation
import Monkey.Syntax.Encoding

/-!
# Monkey — the readers follow the schema

Reading a document and writing the tree down again is bringing the document into its
canonical form. A reader of a record is one of three kinds, by the number of its fields, and
what it does is said once for each; a reader with one bracket more room looks through the
bracket and leaves the rest to the readers with less.
-/

namespace Monkey

/-- A document that has the fields has as many as there are names. -/
theorem Json.length_of_fields? {names : List String} {v : Json} {vs : List (Option Json)}
    (h : v.fields? names = some vs) : vs.length = names.length := by
  cases v with
  | null | bool | number | string => cases h
  | array items =>
    obtain ⟨hlength, rfl⟩ := fields?_array_iff.1 h
    rw [List.length_map, hlength]
  | object ms => exact ((fields?_object_iff.1 h).2.length_eq).symm

/-- A field that may not be left out. -/
theorem Field.normal?_required (normal : Form → Json → Option Json) (name : String) (form : Form)
    (v? : Option Json) :
    Field.normal? normal ⟨name, form, false⟩ v? = v?.bind (normal form) := by
  cases v? with
  | none => rfl
  | some v => cases v <;> rfl

/-- An operator, by its symbol. -/
theorem Form.normal?_symbol {α : Type} {all : List α} {symbol : α → String}
    {ofSymbol? : String → Option α} (hall : ∀ op, op ∈ all)
    (hsymbol : ∀ s op, ofSymbol? s = some op ↔ symbol op = s) (room : Nat) (v : Json) :
    ((operatorSymbol? room v).bind ofSymbol?).map (fun op => .ofString (symbol op)) =
      Form.normal? room (.operator (all.map symbol)) v := by
  symm
  ext c
  rw [normal?_operator_iff, Option.map_eq_some_iff]
  simp only [Option.bind_eq_some_iff, operatorSymbol?_eq_some_iff, List.mem_map, hsymbol]
  constructor
  · rintro ⟨_, ⟨op, -, rfl⟩, hv, rfl⟩
    exact ⟨op, ⟨symbol op, hv, rfl⟩, rfl⟩
  · rintro ⟨op, ⟨_, hv, rfl⟩, rfl⟩
    exact ⟨symbol op, ⟨op, hall op, rfl⟩, hv, rfl⟩

/-- No two operators are written alike. -/
theorem UnaryOp.ofSymbol?_eq_some_iff (s : String) (op : UnaryOp) :
    ofSymbol? s = some op ↔ op.symbol = s := by
  constructor
  · intro h
    simpa using List.find?_some h
  · rintro rfl
    exact ofSymbol?_symbol op

theorem BinaryOp.ofSymbol?_eq_some_iff (s : String) (op : BinaryOp) :
    ofSymbol? s = some op ↔ op.symbol = s := by
  constructor
  · intro h
    simpa using List.find?_some h
  · rintro rfl
    exact ofSymbol?_symbol op

/-- An operator before an operand is read from its symbol. -/
theorem Form.normal?_unary (room : Nat) (v : Json) :
    (UnaryOp.ofJson? room v).map (fun op => .ofString op.symbol) =
      Form.normal? room (.operator (UnaryOp.all.map UnaryOp.symbol)) v :=
  normal?_symbol UnaryOp.mem_all UnaryOp.ofSymbol?_eq_some_iff room v

theorem Form.normal?_binary (room : Nat) (v : Json) :
    (BinaryOp.ofJson? room v).map (fun op => .ofString op.symbol) =
      Form.normal? room (.operator (BinaryOp.all.map BinaryOp.symbol)) v :=
  normal?_symbol BinaryOp.mem_all BinaryOp.ofSymbol?_eq_some_iff room v

theorem Form.normal?_text (room : Nat) (v : Json) :
    Form.normal? room .text v = v.text?.map .ofString := by
  cases room <;> rfl

theorem Form.normal?_integer (room : Nat) (v : Json) :
    Form.normal? room .integer v = v.int64?.map fun n => .ofInt n.toInt := by
  cases room <;> rfl

theorem Form.normal?_truth (room : Nat) (v : Json) :
    Form.normal? room .truth v = v.bool?.map .bool := by
  cases room <;> rfl

/-- A list of data is the list of what its items are. -/
theorem Form.normal?_list {α : Type} {read : Json → Option α} {write : α → Json} {room : Nat}
    {f : Form} (h : ∀ v, (read v).map write = normal? room f v) (v : Json) :
    normal? (room + 1) (.list f) v =
      (v.items?.bind (List.mapM read)).map fun as => .array (as.map write) := by
  have hitems (vs : List Json) :
      vs.mapM (normal? room f) = (vs.mapM read).map (List.map write) := by
    induction vs with
    | nil => rfl
    | cons v vs ih =>
      rw [List.mapM_cons, List.mapM_cons, ih, ← h]
      cases read v <;> cases vs.mapM read <;> rfl
  rw [normal?]
  cases v.items? with
  | none => rfl
  | some vs =>
    simp only [Option.bind_eq_bind, Option.bind_some, hitems]
    cases vs.mapM read <;> rfl

theorem Expr.toJsonList_eq_map (es : List (Expr Unit)) :
    Expr.toJsonList es = es.map Expr.toJson := by
  induction es with
  | nil => rfl
  | cons e es ih => rw [Expr.toJsonList, ih, List.map_cons]

theorem Stmt.toJsonList_eq_map (ss : List (Stmt Unit)) :
    Stmt.toJsonList ss = ss.map Stmt.toJson := by
  induction ss with
  | nil => rfl
  | cons s ss ih => rw [Stmt.toJsonList, ih, List.map_cons]

/-- The names of parameters are a list of texts. -/
theorem Form.normal?_names (room : Nat) (v : Json) :
    (namesOfJson? room v).map (fun xs => Json.array (xs.map .ofString)) =
      Form.normal? room (.list .text) v := by
  cases room with
  | zero => rfl
  | succ room => exact (normal?_list (fun v => (normal?_text room v).symm) v).symm

/-- A record of one field. -/
theorem Form.normal?_one {α : Type} {r : Record} {x : String} {f : Form} {room : Nat}
    {read : Json → Option α} {write : α → Json} (hr : r.fields = [⟨x, f, false⟩])
    (h : ∀ v, (read v).map write = normal? room f v) (v : Json) :
    normal? (room + 1) (.record r) v = (v.fields? [x]).bind fun
      | [some a] => (read a).map fun a => .ofMembers [(x, write a)]
      | _ => none := by
  rw [normal?, Record.names, hr]
  change (v.fields? [x]).bind _ = _
  cases hvs : v.fields? [x] with
  | none => rfl
  | some vs =>
    obtain ⟨a, rfl⟩ := List.length_eq_one_iff.1 (Json.length_of_fields? hvs)
    simp only [Option.bind_eq_bind, Option.bind_some, List.zip_cons_cons, List.zip_nil_right,
      List.mapM_cons, List.mapM_nil, Field.normal?_required]
    cases a with
    | none => rfl
    | some a =>
      simp only [Option.bind_some, ← h]
      cases read a <;> simp [Record.members, Record.names, Json.ofMembers, hr]

/-- A record of two fields. -/
theorem Form.normal?_two {α β : Type} {r : Record} {x y : String} {f g : Form} {room : Nat}
    {read : Json → Option α} {write : α → Json} {read' : Json → Option β} {write' : β → Json}
    (hr : r.fields = [⟨x, f, false⟩, ⟨y, g, false⟩])
    (h : ∀ v, (read v).map write = normal? room f v)
    (h' : ∀ v, (read' v).map write' = normal? room g v) (v : Json) :
    normal? (room + 1) (.record r) v = (v.fields? [x, y]).bind fun
      | [some a, some b] => (read a).bind fun a => (read' b).map fun b =>
        .ofMembers [(x, write a), (y, write' b)]
      | _ => none := by
  rw [normal?, Record.names, hr]
  change (v.fields? [x, y]).bind _ = _
  cases hvs : v.fields? [x, y] with
  | none => rfl
  | some vs =>
    obtain ⟨a, b, rfl⟩ := List.length_eq_two.1 (Json.length_of_fields? hvs)
    simp only [Option.bind_eq_bind, Option.bind_some, List.zip_cons_cons, List.zip_nil_right,
      List.mapM_cons, List.mapM_nil, Field.normal?_required]
    cases a with
    | none => rfl
    | some a => cases b with
      | none => simp
      | some b =>
        simp only [Option.bind_some, ← h, ← h']
        cases read a <;> cases read' b <;>
          simp [Record.members, Record.names, Json.ofMembers, hr]

/-- A record of three fields. -/
theorem Form.normal?_three {α β γ : Type} {r : Record} {x y : String} {f g : Form} {room : Nat}
    {read : Json → Option α} {write : α → Json} {read' : Json → Option β} {write' : β → Json}
    {last : Field} {read'' : Option Json → Option γ} {write'' : γ → Json}
    (hr : r.fields = [⟨x, f, false⟩, ⟨y, g, false⟩, last])
    (h : ∀ v, (read v).map write = normal? room f v)
    (h' : ∀ v, (read' v).map write' = normal? room g v)
    (h'' : ∀ v?, (read'' v?).map write'' = last.normal? (normal? room) v?) (v : Json) :
    normal? (room + 1) (.record r) v = (v.fields? [x, y, last.name]).bind fun
      | [some a, some b, c] =>
        (read a).bind fun a => (read' b).bind fun b => (read'' c).map fun c =>
          .ofMembers [(x, write a), (y, write' b), (last.name, write'' c)]
      | _ => none := by
  rw [normal?, Record.names, hr]
  change (v.fields? [x, y, last.name]).bind _ = _
  cases hvs : v.fields? [x, y, last.name] with
  | none => rfl
  | some vs =>
    obtain ⟨a, b, c, rfl⟩ := List.length_eq_three.1 (Json.length_of_fields? hvs)
    simp only [Option.bind_eq_bind, Option.bind_some, List.zip_cons_cons, List.zip_nil_right,
      List.mapM_cons, List.mapM_nil, Field.normal?_required]
    cases a with
    | none => rfl
    | some a => cases b with
      | none => simp
      | some b =>
        simp only [Option.bind_some, ← h, ← h', ← h'']
        cases read a <;> cases read' b <;> cases read'' c <;>
          simp [Record.members, Record.names, Json.ofMembers, hr]

/-- Data without a tag of the variant. -/
theorem Form.normal?_no_tag {x : Variant} {tag : String} (h : tag ∉ x.tags.map Prod.fst)
    (room : Nat) (v : Json) : normal? room (.variant x) (.object [(some tag, v)]) = none := by
  cases room with
  | zero => rfl
  | succ room =>
    have hlookup : x.tags.lookup tag = none := by
      rw [List.lookup_eq_none_iff]
      intro entry hentry
      rw [bne_iff_ne]
      rintro rfl
      exact h (List.mem_map_of_mem hentry)
    rw [normal?, Json.variant?, Option.bind_eq_bind, Option.bind_some]
    simp only [hlookup]
    rfl

/-- Data with a tag. -/
theorem Form.normal?_tag {x : Variant} {tag : String} {f : Form} (h : x.tags.lookup tag = some f)
    (room : Nat) (v : Json) : normal? (room + 1) (.variant x) (.object [(some tag, v)]) =
      (normal? room f v).map fun c => .ofMembers [(tag, c)] := by
  rw [normal?, Json.variant?, Option.bind_eq_bind, Option.bind_some]
  simp only [h, Option.bind_eq_bind, Option.bind_some]
  cases normal? room f v <;> rfl

/-- The second branch of a condition, as far as it is present. -/
def Block.branchOfJson? (room : Nat) : Option Json → Option (Option (Block Unit))
  | none | some .null => some none
  | some v => (Block.ofJson? room v).map some

/-- The second branch of a condition as a document. -/
def Block.branchToJson : Option (Block Unit) → Json
  | none => .null
  | some b => b.toJson

/-- Every reader finds the tree whose document is the canonical form. -/
structure ReadersAgree (room : Nat) : Prop where
  expr v : (Expr.ofJson? room v).map Expr.toJson = Form.normal? room (.variant .expr) v
  exprs v : (Expr.listOfJson? room v).map (fun es => .array (Expr.toJsonList es)) =
    Form.normal? room (.list (.variant .expr)) v
  unary v : (Expr.unaryOfJson? room v).map Expr.toJson =
    (Form.normal? room (.record .unary) v).map fun c => .ofMembers [("Prefix", c)]
  binary v : (Expr.binaryOfJson? room v).map Expr.toJson =
    (Form.normal? room (.record .binary) v).map fun c => .ofMembers [("Infix", c)]
  cond v : (Expr.condOfJson? room v).map Expr.toJson =
    (Form.normal? room (.record .cond) v).map fun c => .ofMembers [("If", c)]
  call v : (Expr.callOfJson? room v).map Expr.toJson =
    (Form.normal? room (.record .call) v).map fun c => .ofMembers [("Call", c)]
  index v : (Expr.indexOfJson? room v).map Expr.toJson =
    (Form.normal? room (.record .index) v).map fun c => .ofMembers [("Index", c)]
  stmt v : (Stmt.ofJson? room v).map Stmt.toJson = Form.normal? room (.variant .stmt) v
  stmts v : (Stmt.listOfJson? room v).map (fun ss => .array (Stmt.toJsonList ss)) =
    Form.normal? room (.list (.variant .stmt)) v
  binding v : (Stmt.bindOfJson? room v).map Stmt.toJson =
    (Form.normal? room (.record .binding) v).map fun c => .ofMembers [("Let", c)]
  block v : (Block.ofJson? room v).map Block.toJson = Form.normal? room (.record .block) v
  literal v : (FnLiteral.ofJson? room v).map FnLiteral.toJson =
    Form.normal? room (.record .literal) v

namespace ReadersAgree

variable {room : Nat}

theorem zero : ReadersAgree 0 := by constructor <;> exact fun _ => rfl

/-- The tag tells the reader, as in the variant; what comes behind it is read with a bracket
less. -/
theorem succ_expr (h : ReadersAgree room) (v : Json) :
    (Expr.ofJson? (room + 1) v).map Expr.toJson =
      Form.normal? (room + 1) (.variant .expr) v := by
  rw [Expr.ofJson?]
  cases hv : v.variant? with
  | none => rw [Form.normal?, hv]; rfl
  | some member =>
    obtain ⟨tag, content⟩ := member
    obtain rfl := Json.variant?_eq_some_iff.1 hv
    simp only [Option.bind_eq_bind, Option.bind_some]
    split
    · rw [Form.normal?_tag rfl, Form.normal?_text]
      cases content.text? <;> rfl
    · rw [Form.normal?_tag rfl, Form.normal?_integer]
      cases content.int64? <;> rfl
    · rw [Form.normal?_tag rfl, Form.normal?_text]
      cases content.text? <;> rfl
    · rw [Form.normal?_tag rfl, Form.normal?_truth]
      cases content.bool? <;> rfl
    · rw [Form.normal?_tag rfl, ← h.exprs]
      cases Expr.listOfJson? room content <;> rfl
    · rw [Form.normal?_tag rfl]
      exact h.unary content
    · rw [Form.normal?_tag rfl]
      exact h.binary content
    · rw [Form.normal?_tag rfl]
      exact h.cond content
    · rw [Form.normal?_tag rfl, ← h.literal]
      cases FnLiteral.ofJson? room content <;> rfl
    · rw [Form.normal?_tag rfl]
      exact h.call content
    · rw [Form.normal?_tag rfl]
      exact h.index content
    · next hIdentifier hInteger hString hBoolean hArray hPrefix hInfix hIf hFunction hCall hIndex =>
      rw [Form.normal?_no_tag]
      · rfl
      · simp only [Variant.tags, List.map_cons, List.map_nil, List.mem_cons, List.not_mem_nil]
        rintro (h | h | h | h | h | h | h | h | h | h | h | h) <;> contradiction

/-- The same with the three kinds of statements. -/
theorem succ_stmt (h : ReadersAgree room) (v : Json) :
    (Stmt.ofJson? (room + 1) v).map Stmt.toJson =
      Form.normal? (room + 1) (.variant .stmt) v := by
  rw [Stmt.ofJson?]
  cases hv : v.variant? with
  | none => rw [Form.normal?, hv]; rfl
  | some member =>
    obtain ⟨tag, content⟩ := member
    obtain rfl := Json.variant?_eq_some_iff.1 hv
    simp only [Option.bind_eq_bind, Option.bind_some]
    split
    · rw [Form.normal?_tag rfl]
      exact h.binding content
    · rw [Form.normal?_tag rfl, ← h.expr]
      cases Expr.ofJson? room content <;> rfl
    · rw [Form.normal?_tag rfl, ← h.expr]
      cases Expr.ofJson? room content <;> rfl
    · next hLet hReturn hExpression =>
      rw [Form.normal?_no_tag]
      · rfl
      · simp only [Variant.tags, List.map_cons, List.map_nil, List.mem_cons, List.not_mem_nil]
        rintro (h | h | h | h) <;> contradiction

/-- A record of two fields: the operator and what it stands before. -/
theorem succ_unary (h : ReadersAgree room) (v : Json) :
    (Expr.unaryOfJson? (room + 1) v).map Expr.toJson =
      (Form.normal? (room + 1) (.record .unary) v).map fun c => .ofMembers [("Prefix", c)] := by
  have hfields : Record.unary.fields = _ := rfl
  rw [Expr.unaryOfJson?, Form.normal?_two hfields (Form.normal?_unary room) h.expr]
  rcases v.fields? ["op", "right"] with _ | _ | ⟨_ | op, _ | ⟨_ | e, _ | _⟩⟩ <;> try rfl
  simp only [Option.bind_eq_bind, Option.bind_some]
  cases UnaryOp.ofJson? room op <;> cases Expr.ofJson? room e <;> rfl

/-- A record of three fields, none of which may be left out. -/
theorem succ_binary (h : ReadersAgree room) (v : Json) :
    (Expr.binaryOfJson? (room + 1) v).map Expr.toJson =
      (Form.normal? (room + 1) (.record .binary) v).map fun c => .ofMembers [("Infix", c)] := by
  have hfields : Record.binary.fields = _ := rfl
  have hright (v? : Option Json) : (v?.bind (Expr.ofJson? room)).map Expr.toJson =
      Field.normal? (Form.normal? room) ⟨"right", .variant .expr, false⟩ v? := by
    rw [Field.normal?_required, ← funext h.expr]
    cases v? <;> rfl
  rw [Expr.binaryOfJson?,
    Form.normal?_three hfields (Form.normal?_binary room) h.expr hright]
  rcases v.fields? ["op", "left", "right"] with
    _ | _ | ⟨_ | op, _ | ⟨_ | l, _ | ⟨_ | r, _ | _⟩⟩⟩ <;> try rfl
  · simp only [Option.bind_eq_bind, Option.bind_some]
    cases BinaryOp.ofJson? room op <;> cases Expr.ofJson? room l <;> rfl
  · simp only [Option.bind_eq_bind, Option.bind_some]
    cases BinaryOp.ofJson? room op <;> cases Expr.ofJson? room l <;>
      cases Expr.ofJson? room r <;> rfl

/-- The one record with a field that may be left out or null, the second branch. -/
theorem succ_cond (h : ReadersAgree room) (v : Json) :
    (Expr.condOfJson? (room + 1) v).map Expr.toJson =
      (Form.normal? (room + 1) (.record .cond) v).map fun c => .ofMembers [("If", c)] := by
  have hfields : Record.cond.fields = _ := rfl
  have hno (v? : Option Json) : (Block.branchOfJson? room v?).map Block.branchToJson =
      Field.normal? (Form.normal? room) ⟨"alternative", .record .block, true⟩ v? := by
    rcases v? with _ | v
    · rfl
    · cases v with
      | null => rfl
      | bool | number | string | array | object =>
        refine Eq.trans ?_ (h.block _)
        rw [Block.branchOfJson?, Option.map_map]
        · rfl
        · exact nofun
  rw [Expr.condOfJson?, Form.normal?_three hfields h.expr h.block hno]
  rcases v.fields? ["condition", "consequence", "alternative"] with
    _ | _ | ⟨_ | c, _ | ⟨_ | yes, _ | ⟨no, _ | _⟩⟩⟩ <;> try rfl
  simp only [Option.bind_eq_bind, Option.bind_some]
  cases Expr.ofJson? room c with
  | none => rfl
  | some c => cases Block.ofJson? room yes with
    | none => rfl
    | some yes =>
      simp only [Option.bind_some]
      -- a branch that is null is read as one that is left out
      split
      · rfl
      · rfl
      · next no hnull =>
        rw [Block.branchOfJson?]
        · cases Block.ofJson? room no <;> rfl
        · exact hnull

theorem succ_exprs (h : ReadersAgree room) (v : Json) :
    (Expr.listOfJson? (room + 1) v).map (fun es => .array (Expr.toJsonList es)) =
      Form.normal? (room + 1) (.list (.variant .expr)) v := by
  simp only [Expr.toJsonList_eq_map]
  exact (Form.normal?_list h.expr v).symm

theorem succ_stmts (h : ReadersAgree room) (v : Json) :
    (Stmt.listOfJson? (room + 1) v).map (fun ss => .array (Stmt.toJsonList ss)) =
      Form.normal? (room + 1) (.list (.variant .stmt)) v := by
  simp only [Stmt.toJsonList_eq_map]
  exact (Form.normal?_list h.stmt v).symm

theorem succ_call (h : ReadersAgree room) (v : Json) :
    (Expr.callOfJson? (room + 1) v).map Expr.toJson =
      (Form.normal? (room + 1) (.record .call) v).map fun c => .ofMembers [("Call", c)] := by
  have hfields : Record.call.fields = _ := rfl
  rw [Expr.callOfJson?, Form.normal?_two hfields h.expr h.exprs]
  rcases v.fields? ["function", "arguments"] with _ | _ | ⟨_ | f, _ | ⟨_ | es, _ | _⟩⟩ <;> try rfl
  simp only [Option.bind_eq_bind, Option.bind_some]
  cases Expr.ofJson? room f <;> cases Expr.listOfJson? room es <;> rfl

theorem succ_index (h : ReadersAgree room) (v : Json) :
    (Expr.indexOfJson? (room + 1) v).map Expr.toJson =
      (Form.normal? (room + 1) (.record .index) v).map fun c => .ofMembers [("Index", c)] := by
  have hfields : Record.index.fields = _ := rfl
  rw [Expr.indexOfJson?, Form.normal?_two hfields h.expr h.expr]
  rcases v.fields? ["left", "index"] with _ | _ | ⟨_ | l, _ | ⟨_ | i, _ | _⟩⟩ <;> try rfl
  simp only [Option.bind_eq_bind, Option.bind_some]
  cases Expr.ofJson? room l <;> cases Expr.ofJson? room i <;> rfl

theorem succ_binding (h : ReadersAgree room) (v : Json) :
    (Stmt.bindOfJson? (room + 1) v).map Stmt.toJson =
      (Form.normal? (room + 1) (.record .binding) v).map fun c => .ofMembers [("Let", c)] := by
  have hfields : Record.binding.fields = _ := rfl
  have hname (v : Json) := (Form.normal?_text room v).symm
  rw [Stmt.bindOfJson?, Form.normal?_two hfields hname h.expr]
  rcases v.fields? ["name", "value"] with _ | _ | ⟨_ | x, _ | ⟨_ | e, _ | _⟩⟩ <;> try rfl
  simp only [Option.bind_eq_bind, Option.bind_some]
  cases x.text? <;> cases Expr.ofJson? room e <;> rfl

theorem succ_block (h : ReadersAgree room) (v : Json) :
    (Block.ofJson? (room + 1) v).map Block.toJson =
      Form.normal? (room + 1) (.record .block) v := by
  have hfields : Record.block.fields = _ := rfl
  rw [Block.ofJson?, Form.normal?_one hfields h.stmts]
  rcases v.fields? ["statements"] with _ | _ | ⟨_ | ss, _ | _⟩ <;> rfl

/-- Parameters are read as texts and the body as a block. -/
theorem succ_literal (h : ReadersAgree room) (v : Json) :
    (FnLiteral.ofJson? (room + 1) v).map FnLiteral.toJson =
      Form.normal? (room + 1) (.record .literal) v := by
  have hfields : Record.literal.fields = _ := rfl
  rw [FnLiteral.ofJson?, Form.normal?_two hfields (Form.normal?_names room) h.block]
  rcases v.fields? ["parameters", "body"] with _ | _ | ⟨_ | ps, _ | ⟨_ | body, _ | _⟩⟩ <;> try rfl
  simp only [Option.bind_eq_bind, Option.bind_some]
  cases namesOfJson? room ps <;> cases Block.ofJson? room body <;> rfl

/-- With one bracket more room every reader agrees if those behind it do. -/
theorem succ (h : ReadersAgree room) : ReadersAgree (room + 1) :=
  ⟨h.succ_expr, h.succ_exprs, h.succ_unary, h.succ_binary, h.succ_cond, h.succ_call, h.succ_index,
    h.succ_stmt, h.succ_stmts, h.succ_binding, h.succ_block, h.succ_literal⟩

end ReadersAgree

/-- **The readers follow the schema**, whatever room there is. -/
theorem readersAgree (room : Nat) : ReadersAgree room := by
  induction room with
  | zero => exact .zero
  | succ room ih => exact ih.succ

/-- So reading a program and writing it down again gives the canonical form of the document. -/
theorem Program.map_toJson_ofJson? (room : Nat) (v : Json) :
    (Program.ofJson? room v).map Program.toJson = Form.normal? room .program v := by
  rw [Form.program, ← (readersAgree room).block, Program.ofJson?, Option.map_map]
  rfl

end Monkey
