import Monkey.Builtin.Name
import Monkey.EvalError

/-!
# Monkey — errors that are true to their kind, and their messages

What an error names fits its kind: a type mismatch has two types, a wrong number of
arguments is not the right one, and so on (`EvalError.TrueToKind`). Of errors that are
true to their kind no two have one message (`EvalError.TrueToKind.eq_of_message_eq`): a
message opens with a text that tells the kind, and what follows tells the rest, since the
names in it are without the signs between them.
-/

namespace Monkey

/-- No two values are compared by `==` and `!=` if one of them is of such a type. -/
def ValueType.Incomparable (t : ValueType) : Prop := t = .array ∨ t = .function ∨ t = .builtin

/-- The error is one that its kind is for. -/
def EvalError.TrueToKind (limit : Option Nat) : EvalError → Prop
  | unknownUnary op operand => op = .neg ∧ operand ≠ .integer
  | unknownBinary left op right => left = right ∧ left ≠ .integer ∧
      (left = .string → op ≠ .add ∧ op.isEquality = false) ∧
      (left = .boolean ∨ left = .null → op.isEquality = false)
  | typeMismatch left op right => left ≠ right ∧
      (op.isEquality = true → left.Incomparable ∨ right.Incomparable)
  | notIndexable _ | divisionByZero => True
  | overflow operation =>
      operation ∈ ["addition", "subtraction", "multiplication", "division", "negation"]
  | unbound name => ∀ b : Builtin, b.name ≠ name
  | notCallable callee => callee ≠ .function ∧ callee ≠ .builtin
  | arity expected got => expected ≠ got
  | tooDeep most => limit = some most
  | builtinArity expected got => expected ≠ got ∧ (expected = 1 ∨ expected = 2)
  | unsupportedArgument builtin got => builtin = "len" ∧ got ≠ .string ∧ got ≠ .array
  | wrongArgument builtin expected got =>
      builtin ∈ ["first", "last", "rest", "push"] ∧ expected = "ARRAY" ∧ got ≠ .array

/-! ## Texts with signs between them -/

/-- Up to the first sign of a kind, texts with the sign are told apart. -/
theorem eq_of_append_cons_eq {c : Char} {as as' bs bs' : List Char} (ha : c ∉ as) (ha' : c ∉ as')
    (h : as ++ c :: bs = as' ++ c :: bs') : as = as' ∧ bs = bs' := by
  induction as generalizing as' with
  | nil =>
    cases as' with
    | nil => exact ⟨rfl, (List.cons.inj h).2⟩
    | cons a as' => exact absurd (List.cons.inj h).1 (List.ne_of_not_mem_cons ha')
  | cons a as ih =>
    cases as' with
    | nil => exact absurd (List.cons.inj h).1.symm (List.ne_of_not_mem_cons ha)
    | cons a' as' =>
      obtain ⟨rfl, hrest⟩ := List.cons.inj h
      obtain ⟨rfl, rfl⟩ := ih (List.not_mem_of_not_mem_cons ha) (List.not_mem_of_not_mem_cons ha')
        hrest
      exact ⟨rfl, rfl⟩

/-- The same of strings, with texts between them that begin with the sign. -/
theorem eq_of_append_text_eq {c : Char} {s s' p p' t t' : String}
    (hp : p.toList.head? = some c) (hp' : p'.toList.head? = some c) (hs : c ∉ s.toList)
    (hs' : c ∉ s'.toList) (h : s ++ p ++ t = s' ++ p' ++ t') : s = s' ∧ p ++ t = p' ++ t' := by
  obtain ⟨ps, hps⟩ := List.head?_eq_some_iff.1 hp
  obtain ⟨ps', hps'⟩ := List.head?_eq_some_iff.1 hp'
  have hlist := congrArg String.toList h
  simp only [String.toList_append, List.append_assoc, hps, hps', List.cons_append] at hlist
  obtain ⟨hleft, -⟩ := eq_of_append_cons_eq hs hs' hlist
  obtain rfl := String.toList_inj.1 hleft
  rw [String.append_assoc, String.append_assoc] at h
  exact ⟨rfl, (String.append_right_inj s).1 h⟩

theorem ValueType.not_mem_name (t : ValueType) : ' ' ∉ t.name.toList := by
  cases t <;> decide

theorem BinaryOp.not_mem_symbol (op : BinaryOp) : ' ' ∉ op.symbol.toList := by
  cases op <;> decide

theorem BinaryOp.symbol_injective {op op' : BinaryOp} (h : op.symbol = op'.symbol) : op = op' := by
  have hof := congrArg BinaryOp.ofSymbol? h
  rw [ofSymbol?_symbol, ofSymbol?_symbol] at hof
  exact Option.some.inj hof

/-- The digits of a number are no sign. -/
theorem not_mem_toString {c : Char} (hc : c.isDigit = false) (n : Nat) :
    c ∉ (toString n).toList := by
  intro hmem
  have hdigit : c ∈ Nat.toDigits 10 n := by simpa using hmem
  have := Nat.isDigit_of_mem_toDigits (by omega) (by omega) hdigit
  rw [hc] at this
  cases this

/-- And a number is read back from its digits. -/
theorem eq_of_toString_eq {n k : Nat} (h : toString n = toString k) : n = k := by
  have hread := congrArg (fun s : String => Nat.ofDigitChars 10 s.toList 0) h
  simpa using hread

/-- An operator between the types of its operands. -/
def BinaryOp.between (left : ValueType) (op : BinaryOp) (right : ValueType) : String :=
  left.name ++ " " ++ (op.symbol ++ " " ++ right.name)

theorem BinaryOp.between_injective {l l' r r' : ValueType} {op op' : BinaryOp}
    (h : op.between l r = op'.between l' r') : l = l' ∧ op = op' ∧ r = r' := by
  have hblank : " ".toList.head? = some ' ' := by decide
  obtain ⟨hleft, hrest⟩ :=
    eq_of_append_text_eq hblank hblank l.not_mem_name l'.not_mem_name h
  obtain ⟨hop, hright⟩ := eq_of_append_text_eq hblank hblank op.not_mem_symbol
    op'.not_mem_symbol ((String.append_right_inj _).1 hrest)
  exact ⟨ValueType.name_injective hleft, symbol_injective hop,
    ValueType.name_injective ((String.append_right_inj _).1 hright)⟩

/-- What stands between two types stands behind a blank. -/
theorem BinaryOp.between_ne_neg (l r t : ValueType) (op : BinaryOp) :
    UnaryOp.neg.symbol ++ t.name ≠ op.between l r := by
  intro h
  have hblank : ' ' ∈ (op.between l r).toList := by simp [between]
  rw [← h, String.toList_append] at hblank
  rcases List.mem_append.1 hblank with hmem | hmem
  · exact absurd hmem (by decide)
  · exact t.not_mem_name hmem

/-- Two numbers with a text between them that begins with a sign are told apart. -/
theorem eq_of_numbers_eq {c : Char} {p : String} (hp : p.toList.head? = some c)
    (hc : c.isDigit = false) {n n' k k' : Nat}
    (h : toString n ++ p ++ toString k = toString n' ++ p ++ toString k') : n = n' ∧ k = k' := by
  obtain ⟨hn, hk⟩ := eq_of_append_text_eq hp hp (not_mem_toString hc n) (not_mem_toString hc n') h
  exact ⟨eq_of_toString_eq hn, eq_of_toString_eq ((String.append_right_inj p).1 hk)⟩

/-! ## The openings of messages -/

/-- How a message opens. -/
inductive Opening where
  | unknownOperator
  | typeMismatch
  | notIndexable
  | divisionByZero
  | overflow
  | unbound
  | notCallable
  | arity
  | tooDeep
  | builtinArity
  | argument
  deriving DecidableEq

/-- The text that a message opens with. -/
def Opening.text : Opening → String
  | unknownOperator => "unknown operator: "
  | typeMismatch => "type mismatch: "
  | notIndexable => "index operator not supported: "
  | divisionByZero => "division by zero"
  | overflow => "integer overflow in "
  | unbound => "identifier not found: "
  | notCallable => "not a function: "
  | arity => "wrong number of arguments: want="
  | tooDeep => "maximum recursion depth exceeded (limit "
  | builtinArity => "wrong number of arguments. got="
  | argument => "argument to '"

/-- No opening begins another one. -/
theorem Opening.eq_of_prefix {a b : Opening} (h : a.text.toList <+: b.text.toList) : a = b := by
  revert h
  cases a <;> cases b <;> decide

namespace EvalError

/-- How the message of an error opens. -/
def opening : EvalError → Opening
  | unknownUnary _ _ | unknownBinary _ _ _ => .unknownOperator
  | typeMismatch _ _ _ => .typeMismatch
  | notIndexable _ => .notIndexable
  | divisionByZero => .divisionByZero
  | overflow _ => .overflow
  | unbound _ => .unbound
  | notCallable _ => .notCallable
  | arity _ _ => .arity
  | tooDeep _ => .tooDeep
  | builtinArity _ _ => .builtinArity
  | unsupportedArgument _ _ | wrongArgument _ _ _ => .argument

/-- What follows the opening of a message. -/
def remainder : EvalError → String
  | unknownUnary op operand => op.symbol ++ operand.name
  | unknownBinary left op right | typeMismatch left op right => op.between left right
  | divisionByZero => ""
  | notIndexable t | notCallable t => t.name
  | overflow s | unbound s => s
  | arity expected got => toString expected ++ ", got=" ++ toString got
  | tooDeep most => toString most ++ ")"
  | builtinArity expected got => toString got ++ ", want=" ++ toString expected
  | unsupportedArgument builtin got => builtin ++ "' not supported, got " ++ got.name
  | wrongArgument builtin expected got =>
      builtin ++ "' must be " ++ (expected ++ ", got " ++ got.name)

theorem message_eq (e : EvalError) : e.message = e.opening.text ++ e.remainder := by
  cases e with
  | divisionByZero => exact String.append_empty.symm
  | notIndexable | overflow | unbound | notCallable => rfl
  | _ =>
    dsimp only [message, opening, Opening.text, remainder, BinaryOp.between, toString]
    simp only [String.append_assoc]

variable {e e' : EvalError}

/-- Errors with one message have messages of one opening. -/
theorem opening_eq (h : e.message = e'.message) : e.opening = e'.opening := by
  rw [message_eq, message_eq] at h
  have hlist := congrArg String.toList h
  rw [String.toList_append, String.toList_append] at hlist
  have hleft : e.opening.text.toList <+: e.opening.text.toList ++ e.remainder.toList :=
    List.prefix_append _ _
  have hright : e'.opening.text.toList <+: e.opening.text.toList ++ e.remainder.toList := by
    rw [hlist]
    exact List.prefix_append _ _
  rcases List.prefix_or_prefix_of_prefix hleft hright with hle | hle
  · exact Opening.eq_of_prefix hle
  · exact (Opening.eq_of_prefix hle).symm

theorem remainder_eq (h : e.message = e'.message) : e.remainder = e'.remainder := by
  have hopening := opening_eq h
  rw [message_eq, message_eq, hopening] at h
  exact (String.append_right_inj _).1 h

/-- An error that is true to its kind is told by its message. -/
theorem TrueToKind.eq_of_message_eq {limit limit' : Option Nat} (h : e.TrueToKind limit)
    (h' : e'.TrueToKind limit') (hmessage : e.message = e'.message) : e = e' := by
  have hopening := opening_eq hmessage
  have hrest := remainder_eq hmessage
  have hquoted : ∀ b ∈ ["first", "last", "rest", "push"], '\x27' ∉ b.toList ∧ b ≠ "len" := by
    decide
  cases e with
  | unknownUnary op t =>
    obtain ⟨rfl, -⟩ := h
    cases e' with
    | unknownUnary op' t' =>
      obtain ⟨rfl, -⟩ := h'
      rw [ValueType.name_injective ((String.append_right_inj _).1 hrest)]
    | unknownBinary l op' r => exact absurd hrest (op'.between_ne_neg l r t)
    | _ => cases hopening
  | unknownBinary l op r =>
    cases e' with
    | unknownUnary op' t =>
      obtain ⟨rfl, -⟩ := h'
      exact absurd hrest.symm (op.between_ne_neg l r t)
    | unknownBinary l' op' r' =>
      obtain ⟨rfl, rfl, rfl⟩ := BinaryOp.between_injective hrest
      rfl
    | _ => cases hopening
  | typeMismatch l op r =>
    cases e' with
    | typeMismatch l' op' r' =>
      obtain ⟨rfl, rfl, rfl⟩ := BinaryOp.between_injective hrest
      rfl
    | _ => cases hopening
  | notIndexable t =>
    cases e' with
    | notIndexable t' => rw [ValueType.name_injective hrest]
    | _ => cases hopening
  | divisionByZero =>
    cases e' with
    | divisionByZero => rfl
    | _ => cases hopening
  | overflow operation =>
    cases e' with
    | overflow operation' => exact congrArg overflow hrest
    | _ => cases hopening
  | unbound x =>
    cases e' with
    | unbound x' => exact congrArg unbound hrest
    | _ => cases hopening
  | notCallable t =>
    cases e' with
    | notCallable t' => rw [ValueType.name_injective hrest]
    | _ => cases hopening
  | arity expected got =>
    cases e' with
    | arity expected' got' =>
      obtain ⟨rfl, rfl⟩ := eq_of_numbers_eq (c := ',') (by decide) (by decide) hrest
      rfl
    | _ => cases hopening
  | tooDeep most =>
    cases e' with
    | tooDeep most' => rw [eq_of_toString_eq ((String.append_left_inj _).1 hrest)]
    | _ => cases hopening
  | builtinArity expected got =>
    cases e' with
    | builtinArity expected' got' =>
      obtain ⟨rfl, rfl⟩ := eq_of_numbers_eq (c := ',') (by decide) (by decide) hrest
      rfl
    | _ => cases hopening
  | unsupportedArgument builtin t =>
    obtain ⟨rfl, -⟩ := h
    cases e' with
    | unsupportedArgument builtin' t' =>
      obtain ⟨rfl, -⟩ := h'
      rw [ValueType.name_injective ((String.append_right_inj _).1 hrest)]
    | wrongArgument builtin' expected t' =>
      obtain ⟨hquote, hlen⟩ := hquoted _ h'.1
      obtain ⟨heq, -⟩ := eq_of_append_text_eq (c := '\x27') (by decide) (by decide) (by decide)
        hquote hrest
      exact absurd heq.symm hlen
    | _ => cases hopening
  | wrongArgument builtin expected t =>
    obtain ⟨hbuiltin, rfl, -⟩ := h
    obtain ⟨hquote, hlen⟩ := hquoted _ hbuiltin
    cases e' with
    | unsupportedArgument builtin' t' =>
      obtain ⟨rfl, -⟩ := h'
      obtain ⟨heq, -⟩ := eq_of_append_text_eq (c := '\x27') (by decide) (by decide) hquote
        (by decide) hrest
      exact absurd heq hlen
    | wrongArgument builtin' expected' t' =>
      obtain ⟨hbuiltin', rfl, -⟩ := h'
      obtain ⟨rfl, hright⟩ := eq_of_append_text_eq (c := '\x27') (by decide) (by decide) hquote
        (hquoted _ hbuiltin').1 hrest
      have hname := (String.append_right_inj _).1 ((String.append_right_inj _).1 hright)
      rw [ValueType.name_injective hname]
    | _ => cases hopening

end EvalError

end Monkey
