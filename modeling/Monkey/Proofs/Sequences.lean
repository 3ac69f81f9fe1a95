import Mathlib.Algebra.Group.Int.Defs
import Mathlib.Algebra.Group.Nat.Defs
import Mathlib.Data.List.Basic
import Monkey.Builtin.Call
import Monkey.Proofs.Arithmetic

/-!
# Monkey — arrays are sequences

Indexing and the five builtins on arrays are defined one by one, each with a rule of its own
for the empty array and for places without an element. `elementAt` is the one sequence they
are all about: places are integers, and null stands where there is no element. The laws
between the operations are laws of `elementAt`; the last of them is that an array can be
taken apart by `first` and `rest` and put together by `push` (`Traversal`).
-/

namespace Monkey

variable {ι : Type}

/-! ## Places -/

/-- What stands at a place of a list; null where nothing does. -/
def elementAt (vs : List (Value ι)) (n : Int) : Value ι :=
  if 0 ≤ n then vs[n.toNat]?.getD .null else .null

section Places

variable {vs : List (Value ι)} {n : Int} {v : Value ι}

theorem elementAt_natCast (vs : List (Value ι)) (k : Nat) : elementAt vs k = vs[k]?.getD .null := by
  rw [elementAt, if_pos (Int.natCast_nonneg k), Int.toNat_natCast]

theorem elementAt_of_neg (vs : List (Value ι)) (h : n < 0) : elementAt vs n = .null :=
  if_neg (Int.not_le.2 h)

theorem elementAt_of_lt {k : Nat} (h : k < vs.length) : elementAt vs k = vs[k] := by
  rw [elementAt_natCast, List.getElem?_eq_getElem h, Option.getD_some]

theorem elementAt_of_le (h : (vs.length : Int) ≤ n) : elementAt vs n = .null := by
  obtain ⟨k, rfl⟩ := Int.eq_ofNat_of_zero_le (Int.le_trans (Int.natCast_nonneg _) h)
  rw [elementAt_natCast, List.getElem?_eq_none (by omega), Option.getD_none]

/-- The first place is 0. -/
theorem elementAt_zero (vs : List (Value ι)) : elementAt vs 0 = vs.head?.getD .null := by
  rw [List.head?_eq_getElem?]
  exact elementAt_natCast vs 0

/-- The last place is one before the length, also where the length is 0. -/
theorem elementAt_length_sub_one (vs : List (Value ι)) :
    elementAt vs (vs.length - 1) = vs.getLast?.getD .null := by
  rcases vs.eq_nil_or_concat' with rfl | ⟨us, u, rfl⟩
  · exact elementAt_of_neg [] (by simp)
  · have hplace : ((us ++ [u]).length : Int) - 1 = us.length := by
      rw [List.length_append, List.length_singleton]
      omega
    rw [hplace, elementAt_natCast, List.getElem?_concat_length, List.getLast?_concat]

theorem elementAt_concat_length (vs : List (Value ι)) (v : Value ι) :
    elementAt (vs ++ [v]) vs.length = v := by
  rw [elementAt_natCast, List.getElem?_concat_length, Option.getD_some]

/-- An element added at the end changes its own place alone. -/
theorem elementAt_concat_of_ne (h : n ≠ vs.length) : elementAt (vs ++ [v]) n = elementAt vs n := by
  rcases Int.lt_or_le n 0 with hneg | hnonneg
  · rw [elementAt_of_neg _ hneg, elementAt_of_neg _ hneg]
  · obtain ⟨k, rfl⟩ := Int.eq_ofNat_of_zero_le hnonneg
    rcases Nat.lt_or_gt_of_ne (fun hk : k = vs.length => h (congrArg Int.ofNat hk)) with hk | hk
    · rw [elementAt_natCast, elementAt_natCast, List.getElem?_append_left hk]
    · rw [elementAt_of_le, elementAt_of_le]
      · omega
      · rw [List.length_append, List.length_singleton]
        omega

/-- Without the first element every place moves down by one. -/
theorem elementAt_cons_succ (h : 0 ≤ n) : elementAt (v :: vs) (n + 1) = elementAt vs n := by
  obtain ⟨k, rfl⟩ := Int.eq_ofNat_of_zero_le h
  rw [elementAt_natCast]
  exact (elementAt_natCast (v :: vs) (k + 1)).trans (by rw [List.getElem?_cons_succ])

end Places

/-! ## Numbers of 64 bits -/

/-- What 64 bits hold does not wrap around. -/
theorem FitsInt64.bmod_eq {n : Int} (h : FitsInt64 n) : n.bmod (2 ^ 64) = n := by
  obtain ⟨hmin, hmax⟩ := h
  exact Int.bmod_eq_of_le (by omega) (by omega)

theorem toInt_add_one {n : Int64} (h : n < Int64.maxValue) : (n + 1).toInt = n.toInt + 1 := by
  have hlt : n.toInt < 2 ^ 63 - 1 := Int64.lt_iff_toInt_lt.1 h
  have hge : -2 ^ 63 ≤ n.toInt := n.le_toInt
  have hfits : FitsInt64 (n.toInt + 1) := ⟨by omega, by omega⟩
  rw [Int64.toInt_add]
  exact hfits.bmod_eq

theorem toInt_sub_one {n : Int64} {k : Nat} (h : n.toInt = k) : (n - 1).toInt = k - 1 := by
  have hlt : n.toInt < 2 ^ 63 := n.toInt_lt
  have hfits : FitsInt64 ((k : Int) - 1) := ⟨by omega, by omega⟩
  rw [Int64.toInt_sub, h]
  exact hfits.bmod_eq

/-! ## Indexing -/

namespace Value

/-- Indexing an array gives what stands there. -/
theorem index_array (vs : List (Value ι)) (i : Int64) :
    (array vs).index (.int i) = .ok (elementAt vs i.toInt) := rfl

/-- A new last element has the index that was the length. -/
theorem index_concat (vs : List (Value ι)) (v : Value ι) (i : Int64) :
    (array (vs ++ [v])).index (.int i) =
      if i.toInt = vs.length then .ok v else (array vs).index (.int i) := by
  rw [index_array, index_array]
  split
  · next hi => rw [hi, elementAt_concat_length]
  · next hi => rw [elementAt_concat_of_ne hi]

/-- Behind a new first element every other one has the next index. -/
theorem index_cons_succ {v : Value ι} {vs : List (Value ι)} {j : Int64} (hj : 0 ≤ j)
    (hmax : j < Int64.maxValue) :
    (array (v :: vs)).index (.int (j + 1)) = (array vs).index (.int j) := by
  have hnonneg : 0 ≤ j.toInt := Int64.le_iff_toInt_le.1 hj
  rw [index_array, index_array, toInt_add_one hmax, elementAt_cons_succ hnonneg]

end Value

/-! ## The builtins on arrays and strings -/

/-- A number of elements or characters that 64 bits hold is a value. -/
theorem Builtin.exists_length {n : Nat} (h : n < 2 ^ 63) :
    ∃ c : Int64, c.toInt = n ∧ (length n : Except EvalError (Value ι)) = .ok (.int c) := by
  have hfits : FitsInt64 n := ⟨by omega, by omega⟩
  exact (exact_iff.2 rfl).exactOrOverflow.exact hfits

namespace Builtin

/-- What a builtin gives for arguments. -/
def result (b : Builtin) (args : List (Value ι)) : Except EvalError (Value ι) :=
  (b.call args .silent).1

/-- Nothing but `log` prints. -/
theorem call_of_ne_log {b : Builtin} (h : b ≠ .log) (args : List (Value ι)) (printer : Printer) :
    b.call args printer = (b.result args, printer) := by
  cases b with
  | log => exact absurd rfl h
  | _ => rfl

theorem first_result_array (vs : List (Value ι)) :
    first.result [.array vs] = .ok (elementAt vs 0) :=
  congrArg Except.ok (elementAt_zero vs).symm

theorem last_result_array (vs : List (Value ι)) :
    last.result [.array vs] = .ok (elementAt vs (vs.length - 1)) :=
  congrArg Except.ok (elementAt_length_sub_one vs).symm

/-- What has been pushed is the last element. -/
theorem last_result_concat (vs : List (Value ι)) (v : Value ι) :
    last.result [.array (vs ++ [v])] = .ok v := by
  have hplace : ((vs ++ [v]).length : Int) - 1 = vs.length := by
    rw [List.length_append, List.length_singleton]
    omega
  rw [last_result_array, hplace, elementAt_concat_length]

theorem rest_result_cons (v : Value ι) (vs : List (Value ι)) :
    rest.result [.array (v :: vs)] = .ok (.array vs) := rfl

theorem push_result_array (vs : List (Value ι)) (v : Value ι) :
    push.result [.array vs, v] = .ok (.array (vs ++ [v])) := rfl

end Builtin

/-- The number that `len` gives for the value. -/
def Value.HasLength (v : Value ι) (n : Nat) : Prop :=
  ∃ c : Int64, c.toInt = n ∧ Builtin.len.result [v] = .ok (.int c)

theorem Value.hasLength_array {vs : List (Value ι)} (h : vs.length < 2 ^ 63) :
    (Value.array vs).HasLength vs.length := Builtin.exists_length h

/-- The length of a string is the number of its characters. -/
theorem Value.hasLength_str {s : String} (h : s.length < 2 ^ 63) :
    (Value.str s : Value ι).HasLength s.toList.length := Builtin.exists_length h

theorem Value.hasLength_concat {vs : List (Value ι)} (h : vs.length + 1 < 2 ^ 63) (v : Value ι) :
    (Value.array (vs ++ [v])).HasLength (vs.length + 1) := by
  have hlength : (vs ++ [v]).length = vs.length + 1 := List.length_append
  rw [← hlength] at h ⊢
  exact hasLength_array h

/-- Two strings joined have as many characters as the two have together. -/
theorem Value.hasLength_append {s t : String} (h : s.length + t.length < 2 ^ 63) :
    (Value.str (s ++ t) : Value ι).HasLength (s.toList.length + t.toList.length) := by
  rw [← String.length_append] at h
  rw [← List.length_append, ← String.toList_append]
  exact hasLength_str h

/-! ## Taking an array apart -/

/-- What is left of an array that is taken apart, and what has been put together of it. -/
structure Traversal (ι : Type) where
  remaining : Value ι
  collected : Value ι

namespace Traversal

/-- Nothing has been taken yet. -/
def start (v : Value ι) : Traversal ι := ⟨v, .array []⟩

/-- Whether the length of what is left is 0. -/
def finished (t : Traversal ι) : Except EvalError Bool := do
  match ← Builtin.len.result [t.remaining] with
  | .int n => return n == 0
  | _ => return false

/-- Adds the first element of what is left to what is put together, and leaves the rest. -/
def move (t : Traversal ι) : Except EvalError (Traversal ι) := do
  let v ← Builtin.first.result [t.remaining]
  let collected ← Builtin.push.result [t.collected, v]
  let remaining ← Builtin.rest.result [t.remaining]
  return ⟨remaining, collected⟩

/-- One round, where there is another one. -/
def round (t : Traversal ι) : Except EvalError (Option (Traversal ι)) := do
  if ← t.finished then return none else return some (← t.move)

/-- A number of rounds, one after the other. -/
def rounds : Nat → Traversal ι → Except EvalError (Option (Traversal ι))
  | 0, t => .ok (some t)
  | k + 1, t => do
    match ← t.round with
    | some t' => rounds k t'
    | none => return none

/-- The traversal is over when the array is empty. -/
theorem finished_array {vs : List (Value ι)} (h : vs.length < 2 ^ 63) (w : Value ι) :
    finished ⟨.array vs, w⟩ = .ok vs.isEmpty := by
  obtain ⟨n, hn, hlen⟩ := Value.hasLength_array h
  have hzero : (n == 0) = vs.isEmpty := by
    have hiff : n = 0 ↔ vs.length = 0 := by
      rw [← Int64.toInt_inj, hn, Int64.toInt_zero, Int.natCast_eq_zero]
    rw [Bool.eq_iff_iff, beq_iff_eq, hiff, List.isEmpty_iff_length_eq_zero]
  rw [finished, hlen, ← hzero]
  rfl

theorem round_nil (w : Value ι) : round ⟨.array [], w⟩ = .ok none := rfl

/-- A round moves one element over. -/
theorem round_cons {v : Value ι} {vs ws : List (Value ι)} (h : (v :: vs).length < 2 ^ 63) :
    round ⟨.array (v :: vs), .array ws⟩ = .ok (some ⟨.array vs, .array (ws ++ [v])⟩) := by
  rw [round, finished_array h]
  rfl

/-- After as many rounds as there are elements all of them have been moved over. The
induction is on the elements that are left. -/
theorem rounds_array {vs : List (Value ι)} (h : vs.length < 2 ^ 63) {k : Nat}
    (hk : k ≤ vs.length) (ws : List (Value ι)) :
    rounds k ⟨.array vs, .array ws⟩ =
      .ok (some ⟨.array (vs.drop k), .array (ws ++ vs.take k)⟩) := by
  induction k generalizing vs ws with
  | zero => rw [List.drop_zero, List.take_zero, List.append_nil, rounds]
  | succ k ih =>
    cases vs with
    | nil => exact absurd hk (Nat.not_succ_le_zero k)
    | cons v vs =>
      have hrest : vs.length < 2 ^ 63 := Nat.lt_of_succ_lt h
      rw [rounds, round_cons h, List.drop_succ_cons, List.take_succ_cons]
      have hnext := ih hrest (Nat.le_of_succ_le_succ hk) (ws ++ [v])
      rw [List.append_assoc, List.singleton_append] at hnext
      exact hnext

end Traversal

/-! ## The laws -/

/-- **Arrays are sequences.** The builtins but `log` print nothing. An index gives the element
at its place, and null outside; `first` and `last` are the elements at the places 0 and one
before the length. `push` adds one element, which is the last one and stands at the old
length, and changes no other place; `rest` of an array that is not empty takes the first
element off, moves every place down by one, and can be taken before or after `push`; of the
empty array it is null. Taken apart by `first` and `rest` until its length is 0 and put
together by `push`, an array comes back after as many rounds as it has elements, and no round
fails. And the length of two strings joined is the sum of their lengths in characters. -/
theorem arrays_are_sequences (vs : List (Value ι)) (v : Value ι) (hvs : vs.length < 2 ^ 63) :
    let a : Value ι := .array vs
    (∀ b : Builtin, b ≠ .log → ∀ args printer,
      b.call args printer = ((b.result args : Except EvalError (Value ι)), printer)) ∧
    (∀ i : Int64,
      (∀ k (_ : k < vs.length), i.toInt = k → a.index (.int i) = .ok vs[k]) ∧
      (i.toInt < 0 ∨ vs.length ≤ i.toInt → a.index (.int i) = .ok .null)) ∧
    (∃ n : Int64, n.toInt = vs.length ∧ Builtin.len.result [a] = .ok (.int n) ∧
      Builtin.first.result [a] = a.index (.int 0) ∧
      Builtin.last.result [a] = a.index (.int (n - 1))) ∧
    (∃ b, Builtin.push.result [a, v] = .ok b ∧
      (vs.length + 1 < 2 ^ 63 → b.HasLength (vs.length + 1)) ∧
      Builtin.last.result [b] = .ok v ∧
      ∀ i : Int64,
        b.index (.int i) = if i.toInt = vs.length then .ok v else a.index (.int i)) ∧
    (vs ≠ [] → ∃ b, Builtin.rest.result [a] = .ok b ∧
      b.HasLength (vs.length - 1) ∧
      (∀ j : Int64, 0 ≤ j → j < Int64.maxValue → b.index (.int j) = a.index (.int (j + 1))) ∧
      (do Builtin.rest.result [← Builtin.push.result [a, v]]) = Builtin.push.result [b, v]) ∧
    (do Builtin.rest.result [← Builtin.push.result [.array [], v]]) = .ok (.array []) ∧
    Builtin.rest.result [(.array [] : Value ι)] = .ok .null ∧
    (∀ k ≤ vs.length, (Traversal.start a).rounds k =
      .ok (some ⟨.array (vs.drop k), .array (vs.take k)⟩)) ∧
    (Traversal.start a).rounds vs.length = .ok (some ⟨.array [], a⟩) ∧
    Traversal.round ⟨.array [], a⟩ = .ok none ∧
    ∀ s t : String, s.length + t.length < 2 ^ 63 →
      ∃ u : Value ι, BinaryOp.add.apply (.str s) (.str t) = .ok u ∧
        (Value.str s : Value ι).HasLength s.toList.length ∧
        (Value.str t : Value ι).HasLength t.toList.length ∧
        u.HasLength (s.toList.length + t.toList.length) := by
  intro a
  refine ⟨fun b hb args printer => Builtin.call_of_ne_log hb args printer,
    fun i => ⟨fun k hk hi => ?inside, fun hi => ?outside⟩, ?ends, ?push, fun hne => ?rest, rfl, rfl,
    fun k hk => Traversal.rounds_array hvs hk [], ?whole, Traversal.round_nil a,
    fun s t hst => ?strings⟩
  case inside =>
    rw [Value.index_array, hi, elementAt_of_lt hk]
  case outside =>
    rcases hi with hneg | hpast
    · rw [Value.index_array, elementAt_of_neg vs hneg]
    · rw [Value.index_array, elementAt_of_le hpast]
  case ends =>
    obtain ⟨n, hn, hlen⟩ := Value.hasLength_array hvs
    refine ⟨n, hn, hlen, Builtin.first_result_array vs, ?_⟩
    rw [Builtin.last_result_array, Value.index_array, toInt_sub_one hn]
  case push =>
    exact ⟨.array (vs ++ [v]), Builtin.push_result_array vs v,
      fun h => Value.hasLength_concat h v, Builtin.last_result_concat vs v,
      Value.index_concat vs v⟩
  case rest =>
    obtain ⟨w, ws, rfl⟩ := List.exists_cons_of_ne_nil hne
    have hws : ws.length < 2 ^ 63 := Nat.lt_of_succ_lt hvs
    exact ⟨.array ws, Builtin.rest_result_cons w ws, Value.hasLength_array hws,
      fun j hj hmax => (Value.index_cons_succ hj hmax).symm, rfl⟩
  case whole =>
    have hall := Traversal.rounds_array hvs (Nat.le_refl vs.length) []
    rw [List.drop_length, List.take_length] at hall
    exact hall
  case strings =>
    exact ⟨.str (s ++ t), rfl, Value.hasLength_str (Nat.lt_of_le_of_lt (Nat.le_add_right _ _) hst),
      Value.hasLength_str (Nat.lt_of_le_of_lt (Nat.le_add_left _ _) hst),
      Value.hasLength_append hst⟩

/-- Null as an element and null outside; a place that `push` fills; the rest of one element;
two rounds; and characters that are more than one byte. -/
theorem arrays_are_sequences_with_null :
    let vs : List (Value Unit) := [.int 7, .null]
    let v : Value Unit := .str "x"
    vs.length < 2 ^ 63 ∧
    (Value.array vs).index (.int 1) = .ok .null ∧ (Value.array vs).index (.int 2) = .ok .null ∧
    (∃ b, Builtin.push.result [.array vs, v] = .ok b ∧ b.index (.int 2) = .ok v) ∧
    (∃ b, Builtin.rest.result [.array vs] = .ok b ∧ b.HasLength 1 ∧
      b.index (.int 0) = (Value.array vs).index (.int 1)) ∧
    (Traversal.start (.array vs)).rounds 2 = .ok (some ⟨.array [], .array vs⟩) ∧
    ∃ u : Value Unit, BinaryOp.add.apply (.str "é") (.str "日本") = .ok u ∧ u.HasLength 3 := by
  intro vs v
  have hvs : vs.length < 2 ^ 63 := by decide
  obtain ⟨-, hindex, -, ⟨b, hpush, -, -, hplaces⟩, hrest, -, -, -, hwhole, -, hstrings⟩ :=
    arrays_are_sequences vs v hvs
  obtain ⟨c, hc, hlength, hmoved, -⟩ := hrest (List.cons_ne_nil _ _)
  obtain ⟨u, hu, -, -, hjoined⟩ := hstrings "é" "日本" (by decide)
  refine ⟨hvs, (hindex 1).1 1 (by decide) (by decide), (hindex 2).2 (.inr (by decide)),
    ⟨b, hpush, ?_⟩, ⟨c, hc, hlength, hmoved 0 (by decide) (by decide)⟩, hwhole, u, hu, hjoined⟩
  rw [hplaces 2, if_pos (by decide)]

end Monkey
