import Monkey.Proofs.Likeness
import Monkey.Proofs.Rendering
import Monkey.Syntax.Relabelling

/-!
# Monkey — the host's equality of values

A host compares arrays element by element and functions by their literal, label included,
and their frame. Labels may be compared by any equivalence; no operation looks at them, so
what is done to a value relabelled is what is done to the value, relabelled
(`BinaryOp.apply_relabel` and its companions). Values are equal exactly if they are one
value after the relabelling that maps equal labels to one (`Value.beq_iff`), and so nothing
tells equal values apart (`host_equality_is_a_congruence`).
-/

namespace Monkey

variable {ι κ : Type}

/-! ## Values under other labels -/

section Relabelling

variable (φ : ι → κ)

mutual

/-- A value, the literals of its closures relabelled. -/
def Value.relabel : Value ι → Value κ
  | .int n => .int n
  | .bool b => .bool b
  | .str s => .str s
  | .array vs => .array (Value.relabelList vs)
  | .closure f env => .closure (f.relabel φ) env
  | .builtin b => .builtin b
  | .null => .null
termination_by structural v => v

/-- A list of values, relabelled. -/
def Value.relabelList : List (Value ι) → List (Value κ)
  | [] => []
  | v :: vs => v.relabel :: Value.relabelList vs
termination_by structural vs => vs

end

namespace Value

theorem relabelList_eq_map (vs : List (Value ι)) : relabelList φ vs = vs.map (relabel φ) := by
  induction vs with
  | nil => rfl
  | cons v vs ih => rw [relabelList, ih, List.map_cons]

variable {φ} in
theorem relabel_eq_int_iff {v : Value ι} {a : Int64} : v.relabel φ = .int a ↔ v = .int a := by
  cases v <;> simp [relabel]

variable {φ} in
theorem relabel_eq_str_iff {v : Value ι} {s : String} : v.relabel φ = .str s ↔ v = .str s := by
  cases v <;> simp [relabel]

variable (v w : Value ι)

/-- Types, truth and the equality of the language do not look at labels. -/
@[simp] theorem type_relabel : (v.relabel φ).type = v.type := by
  cases v <;> rfl

@[simp] theorem truthy_relabel : (v.relabel φ).truthy = v.truthy := by
  cases v with
  | bool b => cases b <;> rfl
  | _ => rfl

@[simp] theorem primitiveEq?_relabel :
    (v.relabel φ).primitiveEq? (w.relabel φ) = v.primitiveEq? w := by
  cases v <;> cases w <;> rfl

end Value

mutual

/-- The text of a value does not depend on the labels. -/
theorem Value.text_relabel : ∀ v : Value ι, (v.relabel φ).text = v.text
  | .int _ | .bool _ | .str _ | .builtin _ | .null => rfl
  | .array vs => by rw [Value.relabel, Value.text, Value.text, Value.texts_relabel vs]
  | .closure f env => by
    change (Value.closure (f.relabel φ) env).leafText = (Value.closure f env).leafText
    rw [Value.leafText, Value.leafText, FnLiteral.parameters_relabel, FnLiteral.body_relabel,
      Block.source, Block.source, Stmt.sources_relabel]
termination_by structural v => v

theorem Value.texts_relabel : ∀ vs : List (Value ι),
    Value.texts (Value.relabelList φ vs) = Value.texts vs
  | [] => rfl
  | v :: vs => by
    rw [Value.relabelList, Value.texts, Value.texts, v.text_relabel, Value.texts_relabel vs]
termination_by structural vs => vs

end

/-- Nor does the printed text, which has the source of a function in it. -/
@[simp] theorem Value.render_relabel (v : Value ι) : (v.relabel φ).render = v.render := by
  rw [Value.render_eq_text, Value.render_eq_text, Value.text_relabel]

/-! ## Operators and builtins do not look at labels -/

theorem Value.ofInt_relabel (operation : String) (n : Int) :
    (Value.ofInt operation n : Except EvalError (Value κ)) =
      (Value.ofInt operation n).map (Value.relabel φ) := by
  unfold Value.ofInt
  split
  · rfl
  · rfl

/-- Operators give on relabelled operands what they give, relabelled. -/
theorem UnaryOp.apply_relabel (op : UnaryOp) (v : Value ι) :
    op.apply (v.relabel φ) = (op.apply v).map (Value.relabel φ) := by
  cases op with
  | not =>
    rw [UnaryOp.apply, UnaryOp.apply, Value.truthy_relabel]
    rfl
  | neg =>
    cases v with
    | int n => exact Value.ofInt_relabel φ "negation" _
    | _ => rfl

theorem BinaryOp.applyInt_relabel (op : BinaryOp) (a b : Int64) :
    (op.applyInt a b : Except EvalError (Value κ)) =
      (op.applyInt a b).map (Value.relabel φ) := by
  cases op with
  | add | sub | mul => exact Value.ofInt_relabel φ _ _
  | div =>
    rw [BinaryOp.applyInt, BinaryOp.applyInt]
    split
    · rfl
    · exact Value.ofInt_relabel φ _ _
  | lt | gt | eq | ne => rfl

theorem BinaryOp.applyEquality_relabel (op : BinaryOp) (v w : Value ι) :
    op.applyEquality (v.relabel φ) (w.relabel φ) =
      (op.applyEquality v w).map (Value.relabel φ) := by
  simp only [BinaryOp.applyEquality, BinaryOp.undefined, Value.type_relabel,
    Value.primitiveEq?_relabel]
  split <;> rfl

/-- Between integers and strings there are no labels, and all else is equality. -/
theorem BinaryOp.apply_relabel (op : BinaryOp) (v w : Value ι) :
    op.apply (v.relabel φ) (w.relabel φ) = (op.apply v w).map (Value.relabel φ) := by
  by_cases hint : ∃ a b, v = .int a ∧ w = .int b
  · obtain ⟨a, b, rfl, rfl⟩ := hint
    exact op.applyInt_relabel φ a b
  by_cases hstr : ∃ s t, op = .add ∧ v = .str s ∧ w = .str t
  · obtain ⟨s, t, rfl, rfl, rfl⟩ := hstr
    rfl
  · -- integers and strings stay what they are, so the relabelled sides are no special case either
    rw [apply_eq_applyEquality, apply_eq_applyEquality]
    · exact op.applyEquality_relabel φ v w
    · exact fun a b h => hint ⟨a, b, h⟩
    · exact fun s t h => hstr ⟨s, t, h⟩
    · exact fun a b ⟨hv, hw⟩ =>
        hint ⟨a, b, Value.relabel_eq_int_iff.1 hv, Value.relabel_eq_int_iff.1 hw⟩
    · exact fun s t ⟨hop, hv, hw⟩ =>
        hstr ⟨s, t, hop, Value.relabel_eq_str_iff.1 hv, Value.relabel_eq_str_iff.1 hw⟩

/-- The element at an index is that of the other array, relabelled. -/
theorem Value.index_relabel (v w : Value ι) :
    (v.relabel φ).index (w.relabel φ) = (v.index w).map (Value.relabel φ) := by
  cases v with
  | array vs =>
    cases w with
    | int i =>
      rw [relabel, relabel, index, index, relabelList_eq_map, List.getElem?_map, Except.map]
      split
      · cases vs[i.toInt.toNat]? <;> rfl
      · rfl
    | _ => rfl
  | _ => rfl

namespace Builtin

variable (args : List (Value ι))

/-- What a builtin does with its only argument. -/
theorem oneArgument_bind_relabel {f : Value ι → Except EvalError (Value ι)}
    {g : Value κ → Except EvalError (Value κ)}
    (hfg : ∀ v, g (v.relabel φ) = (f v).map (Value.relabel φ)) :
    (oneArgument (args.map (Value.relabel φ)) >>= g) =
      (oneArgument args >>= f).map (Value.relabel φ) := by
  match args with
  | [] => rfl
  | [v] => exact hfg v
  | v :: w :: vs =>
    have hlen : ((v :: w :: vs).map (Value.relabel φ)).length = (v :: w :: vs).length :=
      List.length_map _
    exact congrArg (Except.error ∘ EvalError.builtinArity 1) hlen

/-- What it does with the elements of an argument. -/
theorem elementsOf_bind_relabel (b : Builtin) (v : Value ι)
    {f : List (Value ι) → Except EvalError (Value ι)}
    {g : List (Value κ) → Except EvalError (Value κ)}
    (hfg : ∀ vs, g (vs.map (Value.relabel φ)) = (f vs).map (Value.relabel φ)) :
    (b.elementsOf (v.relabel φ) >>= g) = (b.elementsOf v >>= f).map (Value.relabel φ) := by
  cases v with
  | array vs =>
    rw [Value.relabel, Value.relabelList_eq_map]
    exact hfg vs
  | _ => rfl

/-- The length of an array and of a string is the same. -/
theorem callLen_relabel :
    callLen (args.map (Value.relabel φ)) = (callLen args).map (Value.relabel φ) := by
  refine oneArgument_bind_relabel φ args fun v => ?_
  cases v with
  | str s => exact Value.ofInt_relabel φ "len" _
  | array vs =>
    rw [Value.relabel, Value.relabelList_eq_map]
    refine Eq.trans ?_ (Value.ofInt_relabel φ "len" vs.length)
    exact congrArg (fun n : Nat => Value.ofInt "len" n) (List.length_map _)
  | _ => rfl

theorem callFirst_relabel :
    callFirst (args.map (Value.relabel φ)) = (callFirst args).map (Value.relabel φ) := by
  refine oneArgument_bind_relabel φ args fun v => elementsOf_bind_relabel φ first v fun vs => ?_
  cases vs <;> rfl

theorem callLast_relabel :
    callLast (args.map (Value.relabel φ)) = (callLast args).map (Value.relabel φ) := by
  refine oneArgument_bind_relabel φ args fun v => elementsOf_bind_relabel φ last v fun vs => ?_
  rw [List.getLast?_map]
  cases vs.getLast? <;> rfl

theorem callRest_relabel :
    callRest (args.map (Value.relabel φ)) = (callRest args).map (Value.relabel φ) := by
  refine oneArgument_bind_relabel φ args fun v => elementsOf_bind_relabel φ rest v fun vs => ?_
  cases vs with
  | nil => rfl
  | cons _ vs => exact congrArg (Except.ok ∘ Value.array) (Value.relabelList_eq_map φ vs).symm

/-- An element that is pushed is relabelled with the others. -/
theorem callPush_relabel :
    callPush (args.map (Value.relabel φ)) = (callPush args).map (Value.relabel φ) := by
  match args with
  | [] | [_] => rfl
  | [v, w] =>
    refine elementsOf_bind_relabel φ push v fun vs => congrArg (Except.ok ∘ Value.array) ?_
    rw [Value.relabelList_eq_map, List.map_append]
    rfl
  | u :: v :: w :: vs =>
    have hlen : ((u :: v :: w :: vs).map (Value.relabel φ)).length = (u :: v :: w :: vs).length :=
      List.length_map _
    exact congrArg (Except.error ∘ EvalError.builtinArity 2) hlen

/-- The line that `log` prints has no labels in it. -/
theorem logLine_relabel : logLine (args.map (Value.relabel φ)) = logLine args := by
  rw [logLine, logLine, List.map_map]
  exact congrArg _ (List.map_congr_left fun v _ => Value.render_relabel φ v)

/-- A builtin does to relabelled arguments what it does to the arguments, and prints what it
prints for them. -/
theorem call_relabel (b : Builtin) (printer : Printer) :
    b.call (args.map (Value.relabel φ)) printer =
      ((b.call args printer).1.map (Value.relabel φ), (b.call args printer).2) := by
  cases b with
  | len => exact congrArg (·, printer) (callLen_relabel φ args)
  | first => exact congrArg (·, printer) (callFirst_relabel φ args)
  | last => exact congrArg (·, printer) (callLast_relabel φ args)
  | rest => exact congrArg (·, printer) (callRest_relabel φ args)
  | push => exact congrArg (·, printer) (callPush_relabel φ args)
  | log =>
    exact congrArg (fun line => (Except.ok Value.null, printer.println line))
      (logLine_relabel φ args)

end Builtin

end Relabelling

/-! ## Equal values -/

section Equality

variable [BEq ι]

mutual

/-- Two values are equal to the host if they are one value after a relabelling that tells
apart the labels that are not equal. -/
theorem Value.beq_iff {φ : ι → κ} (hφ : Separates φ) :
    ∀ v w : Value ι, v.beq w = true ↔ v.relabel φ = w.relabel φ
  | .int n, w => by cases w <;> simp [Value.beq, Value.relabel]
  | .bool b, w => by cases w <;> simp [Value.beq, Value.relabel]
  | .str s, w => by cases w <;> simp [Value.beq, Value.relabel]
  | .array vs, w => by
    cases w with
    | array ws => simp [Value.beq, Value.relabel, Value.beqList_iff hφ vs ws]
    | _ => simp [Value.beq, Value.relabel]
  | .closure f m, w => by
    cases w with
    | closure g n =>
      have hliteral : (f == g) = true ↔ f.relabel φ = g.relabel φ := f.beq_iff hφ g
      simp [Value.beq, Value.relabel, hliteral]
    | _ => simp [Value.beq, Value.relabel]
  | .builtin b, w => by cases w <;> simp [Value.beq, Value.relabel]
  | .null, w => by cases w <;> simp [Value.beq, Value.relabel]
termination_by structural v => v

/-- Arrays are compared element by element. -/
theorem Value.beqList_iff {φ : ι → κ} (hφ : Separates φ) :
    ∀ vs ws : List (Value ι), Value.beqList vs ws = true ↔
      Value.relabelList φ vs = Value.relabelList φ ws
  | [], ws => by cases ws <;> simp [Value.beqList, Value.relabelList]
  | v :: vs, ws => by
    cases ws with
    | nil => simp [Value.beqList, Value.relabelList]
    | cons w ws =>
      simp [Value.beqList, Value.relabelList, v.beq_iff hφ w, Value.beqList_iff hφ vs ws]
termination_by structural vs => vs

end

/-- Comparing a label to others tells apart the labels that are not equal. -/
theorem separates_beq [EquivBEq ι] : Separates (BEq.beq : ι → ι → Bool) := by
  intro a b
  constructor
  · exact fun h => funext fun c => BEq.congr_left h
  · exact fun h => (congrFun h b).trans BEq.rfl

variable {φ : ι → κ} (hφ : Separates φ)

include hφ

/-- Lists are equal element by element if they are one list after the relabelling. -/
theorem Value.forall₂_beq_iff {vs ws : List (Value ι)} :
    List.Forall₂ (· == ·) vs ws ↔ vs.map (Value.relabel φ) = ws.map (Value.relabel φ) := by
  rw [← List.forall₂_eq_eq_eq, List.forall₂_map_left_iff, List.forall₂_map_right_iff]
  exact ⟨List.Forall₂.imp fun v w => (v.beq_iff hφ w).1,
    List.Forall₂.imp fun v w => (v.beq_iff hφ w).2⟩

theorem Value.array_beq_iff {vs ws : List (Value ι)} :
    Value.array vs == .array ws ↔ List.Forall₂ (· == ·) vs ws := by
  rw [Value.forall₂_beq_iff hφ, ← Value.relabelList_eq_map, ← Value.relabelList_eq_map]
  exact Value.beqList_iff hφ vs ws

/-- A closure of one literal equals another exactly if their frame is one. -/
theorem Value.closure_beq_iff {f g : FnLiteral ι} {m n : FrameId}
    (hidentity : f.label == g.label → f = g) :
    Value.closure f m == .closure g n ↔ f.label == g.label ∧ m = n := by
  have hliteral : f == g ↔ f.label == g.label := by
    rw [hφ f.label g.label]
    refine (f.beq_iff hφ g).trans ⟨fun h => ?_, fun h => ?_⟩
    · rw [← f.label_relabel φ, ← g.label_relabel φ, h]
    · rw [hidentity ((hφ _ _).2 h)]
  rw [← hliteral]
  exact (Bool.and_eq_true _ _).to_iff.trans (and_congr_right' beq_iff_eq)

/-- Results that are one result after the relabelling are equal values, or one error. -/
theorem resultsAlike_of_map_eq {r q : Except EvalError (Value ι)}
    (h : r.map (Value.relabel φ) = q.map (Value.relabel φ)) : ResultsAlike Eq (· == ·) r q := by
  cases r with
  | error e =>
    cases q with
    | error e' => exact .error (Except.error.inj h)
    | ok w => cases h
  | ok v =>
    cases q with
    | error e' => cases h
    | ok w => exact .ok ((v.beq_iff hφ w).2 (Except.ok.inj h))

end Equality

/-- Where the language compares two values, the host finds them equal exactly if the
language does. -/
theorem Value.beq_eq_of_primitiveEq? [BEq ι] {v w : Value ι} {same : Bool}
    (h : v.primitiveEq? w = some same) : (v == w) = same := by
  -- both are defined by the same table, apart from the types that only the host compares
  cases v <;> cases w <;> first | exact Option.some.inj h | cases h

/-- **The host's equality is a congruence.** It is an equivalence; it compares arrays
element by element and closures by the identity of their literal and their frame; equal
values have the same type, truth and text and compare alike; whatever is done to equal
values, by an operator, by indexing or by a builtin, gives equal values or one error, and
prints the same; and where the language's own equality is defined, the two agree. -/
theorem host_equality_is_a_congruence [BEq ι] [EquivBEq ι] :
    ((∀ v : Value ι, v == v) ∧ (∀ v w : Value ι, v == w → w == v) ∧
      ∀ u v w : Value ι, u == v → v == w → u == w) ∧
    ((∀ vs ws : List (Value ι), Value.array vs == .array ws ↔ List.Forall₂ (· == ·) vs ws) ∧
      ∀ (f g : FnLiteral ι) (m n : FrameId), (f.label == g.label → f = g) →
        (Value.closure f m == .closure g n ↔ f.label == g.label ∧ m = n)) ∧
    (∀ v v' : Value ι, v == v' →
      v.type = v'.type ∧ v.truthy = v'.truthy ∧ v.render = v'.render ∧
      ∀ op : UnaryOp, ResultsAlike Eq (· == ·) (op.apply v) (op.apply v')) ∧
    (∀ v v' w w' : Value ι, v == v' → w == w' →
      v.primitiveEq? w = v'.primitiveEq? w' ∧
      (∀ op : BinaryOp, ResultsAlike Eq (· == ·) (op.apply v w) (op.apply v' w')) ∧
      ResultsAlike Eq (· == ·) (v.index w) (v'.index w')) ∧
    (∀ (b : Builtin) (args args' : List (Value ι)) (printer : Printer),
      List.Forall₂ (· == ·) args args' →
      ResultsAlike Eq (· == ·) (b.call args printer).1 (b.call args' printer).1 ∧
      (b.call args printer).2 = (b.call args' printer).2) ∧
    ∀ (v w : Value ι) (same : Bool), v.primitiveEq? w = some same → (v == w) = same := by
  -- a label becomes the set of the labels that are equal to it
  have hφ : Separates (BEq.beq : ι → ι → Bool) := separates_beq
  have hiff (v w : Value ι) : v == w ↔ v.relabel BEq.beq = w.relabel BEq.beq := v.beq_iff hφ w
  refine ⟨⟨?refl, ?symm, ?trans⟩, ⟨fun vs ws => Value.array_beq_iff hφ,
    fun f g m n => Value.closure_beq_iff hφ⟩, ?one, ?two, ?builtins,
    fun v w same => Value.beq_eq_of_primitiveEq?⟩
  case refl => exact fun v => (hiff v v).2 rfl
  case symm => exact fun v w h => (hiff w v).2 ((hiff v w).1 h).symm
  case trans =>
    intro u v w huv hvw
    exact (hiff u w).2 (((hiff u v).1 huv).trans ((hiff v w).1 hvw))
  case one =>
    intro v v' hv
    replace hv := (hiff v v').1 hv
    refine ⟨?_, ?_, ?_, fun op => resultsAlike_of_map_eq hφ ?_⟩
    · rw [← Value.type_relabel BEq.beq, hv, Value.type_relabel]
    · rw [← Value.truthy_relabel BEq.beq, hv, Value.truthy_relabel]
    · rw [← Value.render_relabel BEq.beq, hv, Value.render_relabel]
    · rw [← UnaryOp.apply_relabel, hv, UnaryOp.apply_relabel]
  case two =>
    intro v v' w w' hv hw
    replace hv := (hiff v v').1 hv
    replace hw := (hiff w w').1 hw
    refine ⟨?_, fun op => resultsAlike_of_map_eq hφ ?_, resultsAlike_of_map_eq hφ ?_⟩
    · rw [← Value.primitiveEq?_relabel BEq.beq, hv, hw, Value.primitiveEq?_relabel]
    · rw [← BinaryOp.apply_relabel, hv, hw, BinaryOp.apply_relabel]
    · rw [← Value.index_relabel, hv, hw, Value.index_relabel]
  case builtins =>
    intro b args args' printer h
    have hcall : b.call (args.map (Value.relabel BEq.beq)) printer =
        b.call (args'.map (Value.relabel BEq.beq)) printer := by
      rw [(Value.forall₂_beq_iff hφ).1 h]
    rw [Builtin.call_relabel, Builtin.call_relabel, Prod.mk.injEq] at hcall
    exact ⟨resultsAlike_of_map_eq hφ hcall.1, hcall.2⟩

/-- Two literals of one text: their closures are not equal, nor are those of one literal in
two frames; and an array with such a closure in it is pushed onto two equal arrays. -/
theorem host_equality_is_a_congruence_of_closures :
    let f : FnLiteral Nat := ⟨0, ["x"], []⟩
    let g : FnLiteral Nat := ⟨1, ["x"], []⟩
    let vs : Value Nat := .array [.closure f 2, .builtin .len]
    ¬ (Value.closure f 2 == .closure g 2) ∧ ¬ (Value.closure f 2 == .closure f 3) ∧
    Builtin.push.call [vs, vs] .silent =
      (.ok (.array [.closure f 2, .builtin .len, vs]), .silent) ∧
    ResultsAlike Eq (· == ·) (Builtin.push.call [vs, vs] .silent).1
      (Builtin.push.call [vs, vs] .silent).1 := by
  intro f g vs
  obtain ⟨⟨hrefl, -, -⟩, ⟨harray, hclosure⟩, -, -, hbuiltin, -⟩ :=
    host_equality_is_a_congruence (ι := Nat)
  have hf : Value.closure f 2 == .closure f 2 := (hclosure f f 2 2 fun _ => rfl).2 ⟨rfl, rfl⟩
  have hvs : vs == vs := (harray _ _).2 (.cons hf (.cons (hrefl _) .nil))
  refine ⟨fun h => ?_, fun h => ?_, rfl, ?_⟩
  · cases ((hclosure f g 2 2 nofun).1 h).1
  · cases ((hclosure f f 2 3 fun _ => rfl).1 h).2
  · exact (hbuiltin .push [vs, vs] [vs, vs] .silent (.cons hvs (.cons hvs .nil))).1

end Monkey
