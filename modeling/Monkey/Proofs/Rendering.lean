import Monkey.Value.Render

/-!
# Monkey — the turns of writing a value

Writing goes by turns: each takes the first pending item, writes its own part and puts the
items of an array in its place (`Rendering.turn`). A turn does not depend on what stands
below the item it takes (`Rendering.turn_above`), and each turn leaves fewer items to go
through (`Rendering.total_lt_of_turn`). So a list of items that writes a text when it is
alone writes that text above any other items, with these kept as they are until it is done
(`Pending.Writes.above`). Along the constructors of a value that text is `Value.text`.
-/

namespace Monkey

variable {ι : Type}

/-- Writing under way: the text written so far and the items that are pending. -/
structure Rendering (ι : Type) where
  written : String
  pending : List (Pending ι)

namespace Rendering

/-- The same with more items below the pending ones. -/
def above (r : Rendering ι) (rest : List (Pending ι)) : Rendering ι :=
  { r with pending := r.pending ++ rest }

/-- The text that writing ends with from here. -/
def finish (r : Rendering ι) : String := Pending.write r.written r.pending

/-- One turn of `Pending.write`. There is none without a pending item. -/
def turn : Rendering ι → Option (Rendering ι)
  | ⟨_, []⟩ => none
  | ⟨written, .text s :: rest⟩ => some ⟨written ++ s, rest⟩
  | ⟨written, .value (.array vs) :: rest⟩ =>
    some ⟨written ++ "[", Pending.elements vs ++ .text "]" :: rest⟩
  | ⟨written, .value v :: rest⟩ => some ⟨written ++ v.leafText, rest⟩

/-- So many turns one after the other. -/
def turns : Nat → Rendering ι → Option (Rendering ι)
  | 0, r => some r
  | n + 1, r => r.turn.bind (turns n)

/-! ## One turn -/

/-- Everything a turn can do. -/
theorem turn_cases {r r' : Rendering ι} (h : r.turn = some r') :
    (∃ s rest, r.pending = .text s :: rest ∧ r' = ⟨r.written ++ s, rest⟩) ∨
    (∃ vs rest, r.pending = .value (.array vs) :: rest ∧
      r' = ⟨r.written ++ "[", Pending.elements vs ++ .text "]" :: rest⟩) ∨
    (∃ v rest, r.pending = .value v :: rest ∧ (∀ vs, v ≠ .array vs) ∧
      r' = ⟨r.written ++ v.leafText, rest⟩) := by
  obtain ⟨written, pending⟩ := r
  match pending, h with
  | .text s :: rest, h => exact .inl ⟨s, rest, rfl, (Option.some.inj h).symm⟩
  | .value (.array vs) :: rest, h => exact .inr (.inl ⟨vs, rest, rfl, (Option.some.inj h).symm⟩)
  | .value (.int _) :: rest, h | .value (.bool _) :: rest, h | .value (.str _) :: rest, h
  | .value (.closure _ _) :: rest, h | .value (.builtin _) :: rest, h
  | .value .null :: rest, h =>
    exact .inr (.inr ⟨_, rest, rfl, nofun, (Option.some.inj h).symm⟩)

/-- A turn that writes a value without elements. -/
theorem turn_leaf {v : Value ι} (hv : ∀ vs, v ≠ .array vs) (written : String)
    (rest : List (Pending ι)) :
    turn ⟨written, .value v :: rest⟩ = some ⟨written ++ v.leafText, rest⟩ := by
  rw [turn]
  exact hv

/-- A turn takes an item. -/
theorem pending_ne_nil_of_turn {r r' : Rendering ι} (h : r.turn = some r') :
    r.pending ≠ [] := by
  rcases turn_cases h with ⟨s, rest, hp, -⟩ | ⟨vs, rest, hp, -⟩ | ⟨v, rest, hp, -, -⟩ <;>
    exact hp ▸ List.cons_ne_nil _ _

/-- **What stands below the item that a turn takes is kept.** -/
theorem turn_above {r r' : Rendering ι} (h : r.turn = some r') (rest : List (Pending ι)) :
    (r.above rest).turn = some (r'.above rest) := by
  obtain ⟨written, pending⟩ := r
  rcases turn_cases h with ⟨s, ps, rfl, rfl⟩ | ⟨vs, ps, rfl, rfl⟩ | ⟨v, ps, rfl, hv, rfl⟩
  · rfl
  · simp only [above, List.cons_append, turn, List.append_assoc]
  · exact turn_leaf hv written (ps ++ rest)

/-- **A turn leaves fewer items to go through.** -/
theorem total_lt_of_turn {r r' : Rendering ι} (h : r.turn = some r') :
    Pending.total r'.pending < Pending.total r.pending := by
  obtain ⟨written, pending⟩ := r
  rcases turn_cases h with ⟨s, ps, rfl, rfl⟩ | ⟨vs, ps, rfl, rfl⟩ | ⟨v, ps, rfl, -, rfl⟩
  · simp only [Pending.total, Pending.size]
    omega
  · have helements := Pending.total_elements_le vs
    simp only [Pending.total, Pending.size, Pending.total_append, Value.items]
    omega
  · have hpos := Pending.size_pos (.value v)
    simp only [Pending.total]
    omega

/-- A turn does not change the text that writing ends with. -/
theorem finish_of_turn {r r' : Rendering ι} (h : r.turn = some r') : r'.finish = r.finish := by
  obtain ⟨written, pending⟩ := r
  rcases turn_cases h with ⟨s, ps, rfl, rfl⟩ | ⟨vs, ps, rfl, rfl⟩ | ⟨v, ps, rfl, hv, rfl⟩
  · simp only [finish, Pending.write]
  · simp only [finish, Pending.write]
  · rw [finish, finish, Pending.write]
    exact hv

/-! ## Any number of turns -/

theorem turns_add {r r' : Rendering ι} {m : Nat} (h : turns m r = some r') (n : Nat) :
    turns (m + n) r = turns n r' := by
  induction m generalizing r with
  | zero => rw [Nat.zero_add, Option.some.inj h]
  | succ m ih =>
    obtain ⟨r₁, hturn, hturns⟩ := Option.bind_eq_some_iff.1 h
    rw [Nat.succ_add, turns, hturn, Option.bind_some, ih hturns]

/-- Turns before the last have a turn after them. -/
theorem exists_turn_of_lt {r r' : Rendering ι} {n k : Nat} (h : turns n r = some r')
    (hk : k < n) : ∃ r₁ r₂, turns k r = some r₁ ∧ r₁.turn = some r₂ := by
  induction k generalizing r n with
  | zero =>
    obtain ⟨n, rfl⟩ := Nat.exists_eq_succ_of_ne_zero (Nat.ne_of_gt hk)
    obtain ⟨r₁, hturn, -⟩ := Option.bind_eq_some_iff.1 h
    exact ⟨r, r₁, rfl, hturn⟩
  | succ k ih =>
    obtain ⟨n, rfl⟩ := Nat.exists_eq_succ_of_ne_zero (Nat.ne_of_gt (Nat.zero_lt_of_lt hk))
    obtain ⟨r₁, hturn, hturns⟩ := Option.bind_eq_some_iff.1 h
    obtain ⟨r₂, r₃, hr₂, hr₃⟩ := ih hturns (Nat.lt_of_succ_lt_succ hk)
    exact ⟨r₂, r₃, by rw [turns, hturn, Option.bind_some, hr₂], hr₃⟩

theorem turns_above {r r' : Rendering ι} {n : Nat} (h : turns n r = some r')
    (rest : List (Pending ι)) : turns n (r.above rest) = some (r'.above rest) := by
  induction n generalizing r with
  | zero => rw [turns, Option.some.inj h]
  | succ n ih =>
    obtain ⟨r₁, hturn, hturns⟩ := Option.bind_eq_some_iff.1 h
    rw [turns, turn_above hturn, Option.bind_some, ih hturns]

/-- There are no more turns than items to go through. -/
theorem turns_le_total {r r' : Rendering ι} {n : Nat} (h : turns n r = some r') :
    n + Pending.total r'.pending ≤ Pending.total r.pending := by
  induction n generalizing r with
  | zero => exact Nat.le_of_eq (by rw [Nat.zero_add, Option.some.inj h])
  | succ n ih =>
    obtain ⟨r₁, hturn, hturns⟩ := Option.bind_eq_some_iff.1 h
    have hless := total_lt_of_turn hturn
    have hrest := ih hturns
    omega

theorem finish_of_turns {r r' : Rendering ι} {n : Nat} (h : turns n r = some r') :
    r'.finish = r.finish := by
  induction n generalizing r with
  | zero => rw [Option.some.inj h]
  | succ n ih =>
    obtain ⟨r₁, hturn, hturns⟩ := Option.bind_eq_some_iff.1 h
    rw [ih hturns, finish_of_turn hturn]

end Rendering

/-! ## What a list of items writes -/

namespace Pending

open Rendering

/-- The items write the text `s` when nothing else is pending, in a number of turns that does
not depend on what has been written. -/
def Writes (ps : List (Pending ι)) (s : String) : Prop :=
  ∃ n, ∀ written, turns n ⟨written, ps⟩ = some ⟨written ++ s, []⟩

namespace Writes

theorem nil : Writes ([] : List (Pending ι)) "" :=
  ⟨0, fun written => by rw [turns, String.append_empty]⟩

theorem text (s : String) : Writes [(.text s : Pending ι)] s := ⟨1, fun _ => rfl⟩

theorem leaf {v : Value ι} (hv : ∀ vs, v ≠ .array vs) : Writes [.value v] v.leafText :=
  ⟨1, fun written => by rw [turns, turn_leaf hv, Option.bind_some, turns]⟩

/-- The first items write their text while the others stay below them. -/
theorem append {ps qs : List (Pending ι)} {s t : String} (hps : Writes ps s)
    (hqs : Writes qs t) : Writes (ps ++ qs) (s ++ t) := by
  obtain ⟨m, hm⟩ := hps
  obtain ⟨n, hn⟩ := hqs
  refine ⟨m + n, fun written => ?_⟩
  have hfirst : turns m ⟨written, ps ++ qs⟩ = some ⟨written ++ s, qs⟩ :=
    turns_above (hm written) qs
  rw [turns_add hfirst, hn, String.append_assoc]

/-- An array writes its bracket, and then what took its place. -/
theorem array {vs : List (Value ι)} {s : String} (h : Writes (elements vs) s) :
    Writes [.value (.array vs)] ("[" ++ s ++ "]") := by
  obtain ⟨n, hn⟩ := h.append (text "]")
  refine ⟨n + 1, fun written => ?_⟩
  rw [turns, turn, Option.bind_some, hn, String.append_assoc, String.append_assoc]

/-- **The items write their text before anything below them is looked at.** In each turn
until then the first item is one of theirs or has taken the place of one. -/
theorem above {ps : List (Pending ι)} {s : String} (h : Writes ps s) (written : String)
    (rest : List (Pending ι)) :
    ∃ n ≤ total ps, turns n ⟨written, ps ++ rest⟩ = some ⟨written ++ s, rest⟩ ∧
      ∀ k < n, ∃ r : Rendering ι, r.pending ≠ [] ∧
        turns k ⟨written, ps⟩ = some r ∧ turns k ⟨written, ps ++ rest⟩ = some (r.above rest) := by
  obtain ⟨n, hn⟩ := h
  refine ⟨n, Nat.le_trans (Nat.le_add_right n _) (turns_le_total (hn written)),
    turns_above (hn written) rest, fun k hk => ?_⟩
  obtain ⟨r, r', hr, hturn⟩ := exists_turn_of_lt (hn written) hk
  exact ⟨r, pending_ne_nil_of_turn hturn, hr, turns_above hr rest⟩

end Writes

/-! ## What a value writes -/

mutual

/-- A value writes its text. -/
theorem writes_value : ∀ v : Value ι, Writes [.value v] v.text
  | .array vs => by
    rw [Value.text]
    exact .array (writes_elements vs)
  | .int _ | .bool _ | .str _ | .closure _ _ | .builtin _ | .null => by
    rw [Value.text]
    · exact .leaf nofun
    · nofun
termination_by structural v => v

/-- The elements of an array write their texts with separators between them. -/
theorem writes_elements : ∀ vs : List (Value ι),
    Writes (elements vs) (", ".intercalate (Value.texts vs))
  | [] => .nil
  | v :: vs => by
    have hfirst := writes_value v
    have hothers := writes_elements vs
    cases vs with
    | nil =>
      rw [elements, others, Value.texts, Value.texts, String.intercalate_singleton]
      exact hfirst
    | cons w vs =>
      have htexts : ", ".intercalate (Value.texts (v :: w :: vs)) =
          v.text ++ ", " ++ ", ".intercalate (Value.texts (w :: vs)) :=
        String.intercalate_cons_cons
      rw [htexts]
      exact (hfirst.append (.text ", ")).append hothers
termination_by structural vs => vs

end

/-- Any items write some text. -/
theorem exists_writes (ps : List (Pending ι)) : ∃ s, Writes ps s := by
  induction ps with
  | nil => exact ⟨"", .nil⟩
  | cons p ps ih =>
    obtain ⟨t, ht⟩ := ih
    cases p with
    | text s => exact ⟨s ++ t, .append (.text s) ht⟩
    | value v => exact ⟨v.text ++ t, .append (writes_value v) ht⟩

/-- Whatever else is pending, a value at the head of the list is written as its text before
the rest is looked at. -/
theorem write_value (v : Value ι) (written : String) (rest : List (Pending ι)) :
    write written (.value v :: rest) = write (written ++ v.text) rest := by
  obtain ⟨n, -, hturns, -⟩ := (writes_value v).above written rest
  exact (finish_of_turns hturns).symm

end Pending

open Rendering

/-- **Writing comes to an end**, from any items, and then nothing is pending. -/
theorem Rendering.turns_to_finish (r : Rendering ι) :
    ∃ n ≤ Pending.total r.pending, turns n r = some ⟨r.finish, []⟩ := by
  obtain ⟨s, hs⟩ := Pending.exists_writes r.pending
  obtain ⟨n, hn, hturns, -⟩ := hs.above r.written []
  rw [List.append_nil] at hturns
  have hfinish : r.written ++ s = r.finish := by
    rw [← finish_of_turns hturns, finish, Pending.write]
  exact ⟨n, hn, by rw [hturns, hfinish]⟩

namespace Value

theorem render_eq_text (v : Value ι) : v.render = v.text := by
  rw [render, Pending.write_value, Pending.write, String.empty_append]

theorem texts_eq_map (vs : List (Value ι)) : texts vs = vs.map text := by
  induction vs with
  | nil => rfl
  | cons v vs ih => rw [texts, ih, List.map_cons]

theorem text_eq (v : Value ι) :
    v.text = match v with
      | .array vs => "[" ++ ", ".intercalate (vs.map text) ++ "]"
      | v => v.leafText := by
  cases v with
  | array vs => rw [text, texts_eq_map]
  | _ => rfl

/-- **A value is written as the text that is defined along its constructors.** The turns that
start with the value alone come to an end, with that text and nothing pending. Above other
items the value is written in full first: in each turn until then these stand as they are
below an item that comes from the value. -/
theorem rendering_is_recursive (v : Value ι) :
    v.render = v.text ∧
    (v.text = match v with
      | .array vs => "[" ++ ", ".intercalate (vs.map text) ++ "]"
      | v => v.leafText) ∧
    (∃ n ≤ v.items, turns n ⟨"", [.value v]⟩ = some ⟨v.render, []⟩ ∧
      (⟨v.render, []⟩ : Rendering ι).turn = none) ∧
    ∀ (written : String) (rest : List (Pending ι)),
      Pending.write written (.value v :: rest) = Pending.write (written ++ v.text) rest ∧
      ∃ n ≤ v.items,
        turns n ⟨written, .value v :: rest⟩ = some ⟨written ++ v.text, rest⟩ ∧
        ∀ k < n, ∃ r : Rendering ι, r.pending ≠ [] ∧
          turns k ⟨written, [.value v]⟩ = some r ∧
          turns k ⟨written, .value v :: rest⟩ = some (r.above rest) := by
  refine ⟨v.render_eq_text, v.text_eq, ?ends, fun written rest =>
    ⟨Pending.write_value v written rest, (Pending.writes_value v).above written rest⟩⟩
  case ends =>
    obtain ⟨n, hn, hturns⟩ := Rendering.turns_to_finish ⟨"", [.value v]⟩
    exact ⟨n, hn, hturns, rfl⟩

/-- An empty array and one with two elements, in an array with something pending below it. -/
theorem rendering_is_recursive_nested :
    ∃ n, 0 < n ∧
      turns n ⟨"x = ", [.value (.array [.array [], .array [.int 1, .str "a"], .null] : Value Nat),
          .text ";"]⟩ = some ⟨"x = [[], [1, a], null]", [.text ";"]⟩ ∧
      ∃ r : Rendering Nat, r.pending ≠ [] ∧
        r.above [.text ";"] = ⟨"x = ", [.value (.array [.array [], .array [.int 1, .str "a"],
          .null]), .text ";"]⟩ := by
  obtain ⟨n, -, hturns, huntil⟩ := (rendering_is_recursive
    (.array [.array [], .array [.int 1, .str "a"], .null] : Value Nat)).2.2.2 "x = " [.text ";"] |>.2
  have hpos : 0 < n := by
    refine Nat.pos_of_ne_zero ?_
    rintro rfl
    exact List.cons_ne_nil _ _ (List.cons.inj (congrArg pending (Option.some.inj hturns))).2
  obtain ⟨r, hr, -, habove⟩ := huntil 0 hpos
  exact ⟨n, hpos, hturns, r, hr, (Option.some.inj habove).symm⟩

end Value

end Monkey
