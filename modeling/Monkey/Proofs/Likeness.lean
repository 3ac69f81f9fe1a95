import Mathlib.Data.List.Forall2
import Monkey.Proofs.OperatorRules
import Monkey.Proofs.Printed

/-!
# Monkey — values that differ in the frames of their closures

Two values are alike where they have the same form, the same constants and the same
function literals, and the frames of their closures are related. Nothing in the
language but the application of a closure looks at its frame: operators, indexing
and builtins give alike results on alike values, or the same error, and alike values
have the same type, the same truth and the same text.
-/

namespace Monkey

variable {ι : Type}

/-! ## Values -/

/-- Two values are alike up to the frames of their closures, which are related as the
relation says of each function literal. -/
inductive Value.Alike (C : FnLiteral ι → FrameId → FrameId → Prop) : Value ι → Value ι → Prop
  | int (n : Int64) : Alike C (.int n) (.int n)
  | bool (b : Bool) : Alike C (.bool b) (.bool b)
  | str (s : String) : Alike C (.str s) (.str s)
  | array {vs ws : List (Value ι)} : List.Forall₂ (Alike C) vs ws → Alike C (.array vs) (.array ws)
  | closure {f : FnLiteral ι} {a b : FrameId} : C f a b → Alike C (.closure f a) (.closure f b)
  | builtin (b : Builtin) : Alike C (.builtin b) (.builtin b)
  | null : Alike C .null .null

mutual

/-- The frames that the closures of a value have captured. -/
def Value.captured : Value ι → List FrameId
  | .closure _ env => [env]
  | .array vs => Value.capturedList vs
  | _ => []
termination_by structural v => v

/-- Those of a list of values. -/
def Value.capturedList : List (Value ι) → List FrameId
  | [] => []
  | v :: vs => v.captured ++ Value.capturedList vs
termination_by structural vs => vs

end

section Values

variable {C D : FnLiteral ι → FrameId → FrameId → Prop}

mutual

/-- A weaker relation between frames relates as many values. -/
theorem Value.Alike.mono (h : ∀ f a b, C f a b → D f a b) :
    ∀ {v w : Value ι}, v.Alike C w → v.Alike D w
  | .int n, _, .int _ => .int n
  | .bool b, _, .bool _ => .bool b
  | .str s, _, .str _ => .str s
  | .array _, _, .array hs => .array (Value.Alike.mono_list h hs)
  | .closure _ _, _, .closure hc => .closure (h _ _ _ hc)
  | .builtin b, _, .builtin _ => .builtin b
  | .null, _, .null => .null
termination_by structural v => v

theorem Value.Alike.mono_list (h : ∀ f a b, C f a b → D f a b) :
    ∀ {vs ws : List (Value ι)}, List.Forall₂ (Value.Alike C) vs ws →
      List.Forall₂ (Value.Alike D) vs ws
  | [], _, .nil => .nil
  | _ :: _, _, .cons hv hvs => .cons (Value.Alike.mono h hv) (Value.Alike.mono_list h hvs)
termination_by structural vs => vs

end

mutual

/-- A value is like itself if its frames are. -/
theorem Value.alike_self : ∀ {v : Value ι}, (∀ id ∈ v.captured, ∀ f, C f id id) → v.Alike C v
  | .int n, _ => .int n
  | .bool b, _ => .bool b
  | .str s, _ => .str s
  | .array _, h => .array (Value.alike_self_list h)
  | .closure f env, h => .closure (h env List.mem_cons_self f)
  | .builtin b, _ => .builtin b
  | .null, _ => .null
termination_by structural v => v

theorem Value.alike_self_list : ∀ {vs : List (Value ι)},
    (∀ id ∈ Value.capturedList vs, ∀ f, C f id id) → List.Forall₂ (Value.Alike C) vs vs
  | [], _ => .nil
  | _ :: _, h => by
    obtain ⟨hv, hvs⟩ := List.forall_mem_append.1 h
    exact .cons (Value.alike_self hv) (Value.alike_self_list hvs)
termination_by structural vs => vs

end

mutual

/-- What holds of all related frames on the left holds of the frames of a value on the
left. -/
theorem Value.Alike.forall_captured {P : FrameId → Prop} (h : ∀ f a b, C f a b → P a) :
    ∀ {v w : Value ι}, v.Alike C w → ∀ id ∈ v.captured, P id
  | .closure _ _, _, .closure hc => List.forall_mem_singleton.2 (h _ _ _ hc)
  | .array _, _, .array hs => Value.Alike.forall_captured_list h hs
  | .int _, _, _ | .bool _, _, _ | .str _, _, _ | .builtin _, _, _ | .null, _, _ => nofun
termination_by structural v => v

theorem Value.Alike.forall_captured_list {P : FrameId → Prop} (h : ∀ f a b, C f a b → P a) :
    ∀ {vs ws : List (Value ι)}, List.Forall₂ (Value.Alike C) vs ws →
      ∀ id ∈ Value.capturedList vs, P id
  | [], _, _ => nofun
  | _ :: _, _, .cons hv hvs => List.forall_mem_append.2
      ⟨Value.Alike.forall_captured h hv, Value.Alike.forall_captured_list h hvs⟩
termination_by structural vs => vs

end

mutual

/-- Where no frame of a value is related to another one, it is alike to itself alone. -/
theorem Value.Alike.eq_of_captured :
    ∀ {v w : Value ι}, v.Alike C w → (∀ id ∈ v.captured, ∀ f b, C f id b → b = id) → w = v
  | .closure _ _, _, .closure hc, h => congrArg _ (h _ List.mem_cons_self _ _ hc)
  | .array _, _, .array hs, h => congrArg _ (Value.Alike.eq_of_captured_list hs h)
  | .int _, _, .int _, _ | .bool _, _, .bool _, _ | .str _, _, .str _, _
  | .builtin _, _, .builtin _, _ | .null, _, .null, _ => rfl
termination_by structural v => v

theorem Value.Alike.eq_of_captured_list :
    ∀ {vs ws : List (Value ι)}, List.Forall₂ (Value.Alike C) vs ws →
      (∀ id ∈ Value.capturedList vs, ∀ f b, C f id b → b = id) → ws = vs
  | [], _, .nil, _ => rfl
  | _ :: _, _, .cons hv hvs, h => by
    obtain ⟨hv', hvs'⟩ := List.forall_mem_append.1 h
    rw [Value.Alike.eq_of_captured hv hv', Value.Alike.eq_of_captured_list hvs hvs']
termination_by structural vs => vs

end

namespace Value.Alike

variable {v v' w w' : Value ι}

theorem type_eq (h : v.Alike C w) : w.type = v.type := by
  cases h <;> rfl

theorem truthy_eq (h : v.Alike C w) : w.truthy = v.truthy := by
  cases h <;> rfl

/-- Closures are not compared, so frames do not matter for equality either. -/
theorem primitiveEq?_eq (hv : v.Alike C v') (hw : w.Alike C w') :
    v'.primitiveEq? w' = v.primitiveEq? w := by
  cases hv <;> cases hw <;> rfl

end Value.Alike

/-! ## Texts -/

/-- What is still to be written is alike: the same text, or alike values. -/
inductive Pending.Alike (C : FnLiteral ι → FrameId → FrameId → Prop) :
    Pending ι → Pending ι → Prop
  | text (s : String) : Alike C (.text s) (.text s)
  | value {v w : Value ι} : v.Alike C w → Alike C (.value v) (.value w)

/-- A closure is written without its frame. -/
theorem Value.Alike.leafText_eq {v w : Value ι} (h : v.Alike C w) : w.leafText = v.leafText := by
  cases h <;> rfl

theorem Pending.others_alike {vs ws : List (Value ι)} (h : List.Forall₂ (Value.Alike C) vs ws) :
    List.Forall₂ (Pending.Alike C) (others vs) (others ws) := by
  induction h with
  | nil => exact .nil
  | cons hv _ ih => exact .cons (.text _) (.cons (.value hv) ih)

theorem Pending.elements_alike {vs ws : List (Value ι)} (h : List.Forall₂ (Value.Alike C) vs ws) :
    List.Forall₂ (Pending.Alike C) (elements vs) (elements ws) := by
  cases h with
  | nil => exact .nil
  | cons hv hvs => exact .cons (.value hv) (others_alike hvs)

/-- Alike values that are still to be written are written alike; the induction is that of
`write`. -/
theorem Pending.write_alike (written : String) {ps qs : List (Pending ι)}
    (h : List.Forall₂ (Pending.Alike C) ps qs) : write written qs = write written ps := by
  fun_induction write written ps generalizing qs with
  | case1 written =>
    cases h
    rw [write]
  | case2 written s rest ih =>
    cases h with
    | cons hp hrest =>
      cases hp
      rw [write]
      exact ih hrest
  | case3 written vs rest ih =>
    cases h with
    | cons hp hrest =>
      cases hp with
      | value hv =>
        cases hv with
        | array hs =>
          rw [write]
          exact ih (List.rel_append (elements_alike hs) (.cons (.text _) hrest))
  | case4 written rest v hv ih =>
    cases h with
    | cons hp hrest =>
      cases hp with
      | @value _ w hvw =>
        rw [← ih hrest, ← hvw.leafText_eq, write]
        rintro ws rfl
        cases hvw with
        | array _ => exact hv _ rfl

/-- Alike values have the same text. -/
theorem Value.Alike.render_eq {v w : Value ι} (h : v.Alike C w) : w.render = v.render :=
  Pending.write_alike "" (.cons (.value h) .nil)

/-! ## Results -/

/-- Two results are alike: related failures, or related values. -/
inductive ResultsAlike {ε β γ : Type} (E : ε → ε → Prop) (V : β → γ → Prop) :
    Except ε β → Except ε γ → Prop
  | error {e e' : ε} : E e e' → ResultsAlike E V (.error e) (.error e')
  | ok {b : β} {c : γ} : V b c → ResultsAlike E V (.ok b) (.ok c)

/-- Results that are alike up to their values are the same error, or alike values. -/
theorem ResultsAlike.error_or_ok {ε β γ : Type} {V : β → γ → Prop} {r : Except ε β}
    {q : Except ε γ} (h : ResultsAlike Eq V r q) :
    (∃ e, r = .error e ∧ q = .error e) ∨ ∃ b c, r = .ok b ∧ q = .ok c ∧ V b c := by
  cases h with
  | error he => exact .inl ⟨_, rfl, congrArg _ he.symm⟩
  | ok hv => exact .inr ⟨_, _, rfl, rfl, hv⟩

/-- Where no frame is related to another one, alike results are equal. -/
theorem ResultsAlike.eq_of (hC : ∀ f a b, C f a b → b = a) {ε : Type} {r q : Except ε (Value ι)}
    (h : ResultsAlike Eq (Value.Alike C) r q) : q = r := by
  cases h with
  | error he => exact congrArg _ he.symm
  | ok hv => exact congrArg _ (hv.eq_of_captured fun _ _ f b => hC f _ b)

/-- Alike steps after alike results give alike results. -/
theorem ResultsAlike.bind {ε β γ δ κ : Type} {E : ε → ε → Prop} {V : β → γ → Prop}
    {W : δ → κ → Prop} {r : Except ε β} {q : Except ε γ} {f : β → Except ε δ}
    {g : γ → Except ε κ} (h : ResultsAlike E V r q)
    (hfg : ∀ b c, V b c → ResultsAlike E W (f b) (g c)) :
    ResultsAlike E W (r >>= f) (q >>= g) := by
  cases h with
  | error he => exact .error he
  | ok hv => exact hfg _ _ hv

/-! ## Operators -/

theorem Value.ofInt_alike (operation : String) (n : Int) :
    ResultsAlike Eq (Value.Alike C) (Value.ofInt operation n) (Value.ofInt operation n) := by
  unfold Value.ofInt
  split
  · exact .ok (.int _)
  · exact .error rfl

/-- An operator before an operand looks at its truth or at an integer. -/
theorem UnaryOp.apply_alike (op : UnaryOp) {v w : Value ι} (h : v.Alike C w) :
    ResultsAlike Eq (Value.Alike C) (op.apply v) (op.apply w) := by
  cases op with
  | not =>
    rw [UnaryOp.apply, UnaryOp.apply, h.truthy_eq]
    exact .ok (.bool _)
  | neg =>
    cases h with
    | int n => exact Value.ofInt_alike _ _
    | _ => exact .error rfl

/-- What two integers give has no frame in it. -/
theorem BinaryOp.applyInt_alike (op : BinaryOp) (a b : Int64) :
    ResultsAlike Eq (Value.Alike C) (op.applyInt a b) (op.applyInt a b) := by
  cases op with
  | add | sub | mul => exact Value.ofInt_alike _ _
  | div =>
    by_cases hb : b = 0
    · rw [BinaryOp.applyInt, if_pos hb]
      exact .error rfl
    · rw [BinaryOp.applyInt, if_neg hb]
      exact Value.ofInt_alike _ _
  | lt | gt | eq | ne => exact .ok (.bool _)

theorem BinaryOp.applyEquality_alike (op : BinaryOp) {v v' w w' : Value ι} (hv : v.Alike C v')
    (hw : w.Alike C w') :
    ResultsAlike Eq (Value.Alike C) (op.applyEquality v w) (op.applyEquality v' w') := by
  have heq : op.applyEquality v' w' = op.applyEquality v w := by
    simp only [applyEquality, undefined, hv.primitiveEq?_eq hw, hv.type_eq, hw.type_eq]
  rw [heq]
  unfold applyEquality
  split
  · exact .ok (.bool _)
  · exact .ok (.bool _)
  · exact .error rfl

/-- An operator between operands fails on both sides or gives alike values. -/
theorem BinaryOp.apply_alike (op : BinaryOp) {v v' w w' : Value ι} (hv : v.Alike C v')
    (hw : w.Alike C w') :
    ResultsAlike Eq (Value.Alike C) (op.apply v w) (op.apply v' w') := by
  by_cases hint : ∃ a b, v = .int a ∧ w = .int b
  · obtain ⟨a, b, rfl, rfl⟩ := hint
    cases hv
    cases hw
    exact op.applyInt_alike a b
  by_cases hstr : ∃ s t, op = .add ∧ v = .str s ∧ w = .str t
  · obtain ⟨s, t, rfl, rfl, rfl⟩ := hstr
    cases hv
    cases hw
    exact .ok (.str _)
  · -- alike values have the same form, so the other side is no special case either
    rw [apply_eq_applyEquality, apply_eq_applyEquality]
    · exact op.applyEquality_alike hv hw
    · rintro a b ⟨rfl, rfl⟩
      cases hv
      cases hw
      exact hint ⟨a, b, rfl, rfl⟩
    · rintro s t ⟨rfl, rfl, rfl⟩
      cases hv
      cases hw
      exact hstr ⟨s, t, rfl, rfl, rfl⟩
    · rintro a b ⟨rfl, rfl⟩
      exact hint ⟨a, b, rfl, rfl⟩
    · rintro s t ⟨rfl, rfl, rfl⟩
      exact hstr ⟨s, t, rfl, rfl, rfl⟩

theorem Value.getElem?_getD_alike {vs ws : List (Value ι)}
    (h : List.Forall₂ (Value.Alike C) vs ws) (n : Nat) :
    (vs[n]?.getD .null).Alike C (ws[n]?.getD .null) := by
  induction h generalizing n with
  | nil => exact .null
  | cons hv _ ih =>
    cases n with
    | zero => exact hv
    | succ n => exact ih n

/-- An index picks the same place of two alike arrays. -/
theorem Value.index_alike {v v' w w' : Value ι} (hv : v.Alike C v') (hw : w.Alike C w') :
    ResultsAlike Eq (Value.Alike C) (v.index w) (v'.index w') := by
  cases hv with
  | array hs =>
    cases hw with
    | int i =>
      rw [Value.index, Value.index]
      split
      · exact .ok (Value.getElem?_getD_alike hs _)
      · exact .ok .null
    | _ => exact .error rfl
  | _ => exact .error rfl

/-! ## Builtins -/

namespace Builtin

variable {args args' : List (Value ι)}

theorem oneArgument_alike (h : List.Forall₂ (Value.Alike C) args args') :
    ResultsAlike Eq (Value.Alike C) (oneArgument args) (oneArgument args') := by
  have hlen := h.length_eq
  cases h with
  | nil => exact .error rfl
  | cons hv hvs =>
    cases hvs with
    | nil => exact .ok hv
    | cons _ _ => exact .error (congrArg (EvalError.builtinArity 1) hlen)

theorem elementsOf_alike (b : Builtin) {v w : Value ι} (h : v.Alike C w) :
    ResultsAlike Eq (List.Forall₂ (Value.Alike C)) (elementsOf b v) (elementsOf b w) := by
  cases h with
  | array hs => exact .ok hs
  | _ => exact .error rfl

/-- Alike arrays are of the same length. -/
theorem callLen_alike (h : List.Forall₂ (Value.Alike C) args args') :
    ResultsAlike Eq (Value.Alike C) (callLen args) (callLen args') := by
  refine (oneArgument_alike h).bind fun v w hvw => ?_
  cases hvw with
  | str s => exact Value.ofInt_alike _ _
  | @array vs ws hs =>
    change ResultsAlike Eq _ (length vs.length) (length ws.length)
    rw [hs.length_eq]
    exact Value.ofInt_alike _ _
  | _ => exact .error rfl

/-- A builtin gives alike results on alike arguments, wherever it prints. -/
theorem call_alike (b : Builtin) (h : List.Forall₂ (Value.Alike C) args args') (p q : Printer) :
    ResultsAlike Eq (Value.Alike C) (b.call args p).1 (b.call args' q).1 := by
  cases b with
  | len => exact callLen_alike h
  | first =>
    refine (oneArgument_alike h).bind fun v w hvw =>
      (elementsOf_alike _ hvw).bind fun vs ws hs => ?_
    rw [List.head?_eq_getElem?, List.head?_eq_getElem?]
    exact .ok (Value.getElem?_getD_alike hs 0)
  | last =>
    refine (oneArgument_alike h).bind fun v w hvw =>
      (elementsOf_alike _ hvw).bind fun vs ws hs => ?_
    rw [List.getLast?_eq_getElem?, List.getLast?_eq_getElem?, hs.length_eq]
    exact .ok (Value.getElem?_getD_alike hs _)
  | rest =>
    refine (oneArgument_alike h).bind fun v w hvw =>
      (elementsOf_alike _ hvw).bind fun vs ws hs => ?_
    cases hs with
    | nil => exact .ok .null
    | cons _ hs => exact .ok (.array hs)
  | push =>
    have hlen := h.length_eq
    cases h with
    | nil => exact .error rfl
    | cons hv hvs =>
      cases hvs with
      | nil => exact .error rfl
      | cons hw hws =>
        cases hws with
        | nil =>
          exact (elementsOf_alike _ hv).bind fun vs ws hs =>
            .ok (.array (List.rel_append hs (.cons hw .nil)))
        | cons _ _ => exact .error (congrArg (EvalError.builtinArity 2) hlen)
  | log => exact .ok .null

/-- The text that a builtin prints. -/
def printed : Builtin → List (Value ι) → String
  | log, args => logLine args ++ "\n"
  | _, _ => ""

/-- A builtin prints a text of its own behind what has been printed. -/
theorem call_snd (b : Builtin) (args : List (Value ι)) (p : Printer) :
    (b.call args p).2 = p.append (b.printed args) := by
  cases b with
  | log => exact p.println_eq_append _
  | _ => exact p.append_empty.symm

/-- And that text does not tell the frames of its arguments apart. -/
theorem printed_alike (b : Builtin) (h : List.Forall₂ (Value.Alike C) args args') :
    b.printed args' = b.printed args := by
  have htexts : args'.map Value.render = args.map Value.render := by
    induction h with
    | nil => rfl
    | cons hv _ ih => rw [List.map_cons, List.map_cons, hv.render_eq, ih]
  cases b with
  | log => rw [printed, printed, logLine, logLine, htexts]
  | _ => rfl

end Builtin

end Values

end Monkey
