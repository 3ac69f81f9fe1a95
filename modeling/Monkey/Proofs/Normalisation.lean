import Mathlib.Data.List.Forall2
import Monkey.Json.Nesting
import Monkey.Json.Shape
import Monkey.Syntax.Decoding
import Monkey.Syntax.Rewording

/-!
# Monkey — the canonical form of a document

A document of a form has one canonical form, if it has any (`Form.normal?`): records become
objects with all their fields in order, operators strings, and what a record passes over goes.
Reading needs room for the brackets that are looked at, so a document has a canonical form
with some room if and only if it has it with as much as these nest (`nestingAs_le_of_normal?`,
`normal?_of_nestingAs_le`), and the canonical form needs no more (`nesting_le_of_normal?`).
-/

namespace Monkey

/-- A field in its canonical form: null if it is left out. -/
def Field.normal? (normal : Form → Json → Option Json) (field : Field) : Option Json → Option Json
  | none => if field.optional then some .null else none
  | some .null => if field.optional then some .null else normal field.form .null
  | some v => normal field.form v

/-- A document of a form in its canonical form. -/
def Form.normal? : Nat → Form → Json → Option Json
  | _, .text, v => v.text?.map .ofString
  | _, .integer, v => v.int64?.map fun n => .ofInt n.toInt
  | _, .truth, v => v.bool?.map .bool
  | room, .operator symbols, v => do
    let s ← operatorSymbol? room v
    if s ∈ symbols then return .ofString s else none
  | room + 1, .list f, v => do return .array (← (← v.items?).mapM (Form.normal? room f))
  | room + 1, .record r, v => do
    let vs ← v.fields? r.names
    return .object (r.members (← (r.fields.zip vs).mapM fun fv =>
      fv.1.normal? (Form.normal? room) fv.2))
  | room + 1, .variant x, v => do
    let (tag, content) ← v.variant?
    let f ← x.tags.lookup tag
    return .object [(some tag, ← Form.normal? room f content)]
  | 0, .list _, _ | 0, .record _, _ | 0, .variant _, _ => none
termination_by structural room => room

/-- A map over a list gives something if it does on every item. -/
theorem mapM_eq_some_iff {α β : Type} {f : α → Option β} {as : List α} {bs : List β} :
    as.mapM f = some bs ↔ List.Forall₂ (fun a b => f a = some b) as bs := by
  induction as generalizing bs with
  | nil =>
    rw [List.mapM_nil, List.forall₂_nil_left_iff]
    exact ⟨fun h => (Option.some.inj h).symm, fun h => congrArg some h.symm⟩
  | cons a as ih =>
    rw [List.mapM_cons, List.forall₂_cons_left_iff]
    constructor
    · intro h
      obtain ⟨b, hb, h⟩ := Option.bind_eq_some_iff.1 h
      obtain ⟨bs', hbs, h⟩ := Option.bind_eq_some_iff.1 h
      exact ⟨b, bs', hb, ih.1 hbs, (Option.some.inj h).symm⟩
    · rintro ⟨b, bs', hb, hbs, rfl⟩
      rw [hb, Option.bind_eq_bind, Option.bind_some, ih.2 hbs]
      rfl

/-- An item on one side has its partner on the other. -/
theorem exists_mem_zip_of_forall₂ {α β : Type} {R : α → β → Prop} {as : List α} {bs : List β}
    (h : List.Forall₂ R as bs) {a : α} (ha : a ∈ as) : ∃ b, (a, b) ∈ as.zip bs ∧ R a b := by
  induction h with
  | nil => cases ha
  | cons hab _ ih =>
    rcases List.mem_cons.1 ha with rfl | ha
    · exact ⟨_, List.mem_cons_self, hab⟩
    · obtain ⟨b, hb, hR⟩ := ih ha
      exact ⟨b, List.mem_cons_of_mem _ hb, hR⟩

/-- An operator is a string, or where a bracket more is allowed the key of an object whose
content is null. -/
theorem operatorSymbol?_eq_some_iff {room : Nat} {v : Json} {s : String} :
    operatorSymbol? room v = some s ↔
      v = .string (some s) ∨ 0 < room ∧ v = .object [(some s, .null)] := by
  constructor
  · intro h
    unfold operatorSymbol? at h
    split at h
    · cases h
      exact .inr ⟨Nat.succ_pos _, rfl⟩
    · cases v <;> cases h
      exact .inl rfl
  · rintro (rfl | ⟨hroom, rfl⟩)
    · cases room <;> rfl
    · cases room with
      | zero => cases hroom
      | succ room => rfl

theorem Json.variant?_eq_some_iff {v content : Json} {tag : String} :
    v.variant? = some (tag, content) ↔ v = .object [(some tag, content)] := by
  constructor
  · intro h
    unfold Json.variant? at h
    split at h <;> cases h
    rfl
  · rintro rfl
    rfl

namespace Form

variable {room : Nat} {v c : Json}

theorem normal?_operator_iff {symbols : List String} :
    normal? room (.operator symbols) v = some c ↔ ∃ s ∈ symbols,
      (v = .string (some s) ∨ 0 < room ∧ v = .object [(some s, .null)]) ∧ c = .ofString s := by
  have hnormal : normal? room (.operator symbols) v = (operatorSymbol? room v).bind fun s =>
      if s ∈ symbols then some (.ofString s) else none := by
    cases room <;> rfl
  rw [hnormal, Option.bind_eq_some_iff]
  constructor
  · rintro ⟨s, hv, h⟩
    split at h
    · next hs => exact ⟨s, hs, operatorSymbol?_eq_some_iff.1 hv, (Option.some.inj h).symm⟩
    · cases h
  · rintro ⟨s, hs, hv, rfl⟩
    exact ⟨s, operatorSymbol?_eq_some_iff.2 hv, if_pos hs⟩

/-- A list takes a bracket of the room, and its items have the rest. -/
theorem normal?_list_iff {f : Form} : normal? (room + 1) (.list f) v = some c ↔
    ∃ vs ws, v = .array vs ∧ List.Forall₂ (fun v w => normal? room f v = some w) vs ws ∧
      c = .array ws := by
  rw [normal?]
  constructor
  · intro h
    obtain ⟨vs, hvs, h⟩ := Option.bind_eq_some_iff.1 h
    obtain ⟨ws, hws, h⟩ := Option.bind_eq_some_iff.1 h
    refine ⟨vs, ws, ?_, mapM_eq_some_iff.1 hws, (Option.some.inj h).symm⟩
    cases v <;> cases hvs
    rfl
  · rintro ⟨vs, ws, rfl, hws, rfl⟩
    rw [Json.items?, Option.bind_eq_bind, Option.bind_some, mapM_eq_some_iff.2 hws]
    rfl

/-- So does a record, whose fields are found first and then read in their order. -/
theorem normal?_record_iff {r : Record} : normal? (room + 1) (.record r) v = some c ↔
    ∃ vs ws, v.fields? r.names = some vs ∧
      List.Forall₂ (fun fv w => fv.1.normal? (normal? room) fv.2 = some w) (r.fields.zip vs) ws ∧
      c = .object (r.members ws) := by
  rw [normal?]
  constructor
  · intro h
    obtain ⟨vs, hvs, h⟩ := Option.bind_eq_some_iff.1 h
    obtain ⟨ws, hws, h⟩ := Option.bind_eq_some_iff.1 h
    exact ⟨vs, ws, hvs, mapM_eq_some_iff.1 hws, (Option.some.inj h).symm⟩
  · rintro ⟨vs, ws, hvs, hws, rfl⟩
    rw [hvs, Option.bind_eq_bind, Option.bind_some, mapM_eq_some_iff.2 hws]
    rfl

/-- And a variant, whose one tag says as what the content is read. -/
theorem normal?_variant_iff {x : Variant} : normal? (room + 1) (.variant x) v = some c ↔
    ∃ tag content f d, v = .object [(some tag, content)] ∧ x.tags.lookup tag = some f ∧
      normal? room f content = some d ∧ c = .object [(some tag, d)] := by
  rw [normal?]
  constructor
  · intro h
    obtain ⟨⟨tag, content⟩, hv, h⟩ := Option.bind_eq_some_iff.1 h
    obtain ⟨f, hf, h⟩ := Option.bind_eq_some_iff.1 h
    obtain ⟨d, hd, h⟩ := Option.bind_eq_some_iff.1 h
    exact ⟨tag, content, f, d, Json.variant?_eq_some_iff.1 hv, hf, hd, (Option.some.inj h).symm⟩
  · rintro ⟨tag, content, f, d, rfl, hf, hd, rfl⟩
    rw [Json.variant?, Option.bind_eq_bind, Option.bind_some]
    simp only [hf, hd, Option.bind_eq_bind, Option.bind_some]
    rfl

end Form

/-! ## What is looked at -/

/-- The value is an item or a member of the document, of the second form, and is looked at. -/
inductive Json.Part (f : Form) : Json → Form → Json → Prop
  | item {vs : List Json} {i : Nat} {g : Form} {w : Json} :
      vs[i]? = some w → f.item? i = some g → Part f (.array vs) g w
  | member {ms : List (Option String × Json)} {key : String} {g : Form} {w : Json} :
      (some key, w) ∈ ms → f.member? key = some g → Part f (.object ms) g w

namespace Json

theorem itemsNesting_le_iff {vs : List Json} {n : Nat} :
    itemsNesting vs ≤ n ↔ ∀ v ∈ vs, v.nesting ≤ n := by
  induction vs with
  | nil => simp [itemsNesting]
  | cons v vs ih => rw [itemsNesting, Nat.max_le, ih, List.forall_mem_cons]

theorem membersNesting_le_iff {ms : List (Option String × Json)} {n : Nat} :
    membersNesting ms ≤ n ↔ ∀ m ∈ ms, m.2.nesting ≤ n := by
  induction ms with
  | nil => simp [membersNesting]
  | cons m ms ih => rw [membersNesting, Nat.max_le, ih, List.forall_mem_cons]

mutual

/-- What is looked at nests no deeper than all there is. -/
theorem nestingAs_le_nesting : ∀ (v : Json) (f : Form), v.nestingAs f ≤ v.nesting
  | null, _ | bool _, _ | number _, _ | string _, _ => Nat.le_refl 0
  | array vs, f => Nat.succ_le_succ (itemsNestingAs_le_itemsNesting vs f 0)
  | object ms, f => Nat.succ_le_succ (membersNestingAs_le_membersNesting ms f)
termination_by structural v => v

theorem itemsNestingAs_le_itemsNesting : ∀ (vs : List Json) (f : Form) (i : Nat),
    itemsNestingAs vs f i ≤ itemsNesting vs
  | [], _, _ => Nat.le_refl 0
  | v :: vs, f, i => by
    have hvs := itemsNestingAs_le_itemsNesting vs f (i + 1)
    have hv : (f.item? i).elim 0 v.nestingAs ≤ v.nesting := by
      cases f.item? i with
      | none => exact Nat.zero_le _
      | some g => exact v.nestingAs_le_nesting g
    rw [itemsNestingAs, itemsNesting]
    omega
termination_by structural vs => vs

theorem membersNestingAs_le_membersNesting : ∀ (ms : List (Option String × Json)) (f : Form),
    membersNestingAs ms f ≤ membersNesting ms
  | [], _ => Nat.le_refl 0
  | (key, v) :: ms, f => by
    have hms := membersNestingAs_le_membersNesting ms f
    have hv : (key.bind f.member?).elim 0 v.nestingAs ≤ v.nesting := by
      cases key.bind f.member? with
      | none => exact Nat.zero_le _
      | some g => exact v.nestingAs_le_nesting g
    rw [membersNestingAs, membersNesting]
    omega
termination_by structural ms => ms

end

/-- The items that are looked at are those for which the form has an item. -/
theorem itemsNestingAs_le_iff {f : Form} {vs : List Json} {i n : Nat} :
    itemsNestingAs vs f i ≤ n ↔
      ∀ j w g, vs[j]? = some w → f.item? (i + j) = some g → w.nestingAs g ≤ n := by
  induction vs generalizing i with
  | nil => simp [itemsNestingAs]
  | cons v vs ih =>
    rw [itemsNestingAs, Nat.max_le, ih]
    constructor
    · rintro ⟨hv, hvs⟩ j w g hw hg
      cases j with
      | zero =>
        cases hw
        rw [Nat.add_zero] at hg
        rwa [hg] at hv
      | succ j => exact hvs j w g hw (by rwa [Nat.add_assoc, Nat.add_comm 1])
    · intro h
      refine ⟨?_, fun j w g hw hg => h (j + 1) w g hw (by rwa [Nat.add_comm j, ← Nat.add_assoc])⟩
      cases hg : f.item? i with
      | none => exact Nat.zero_le n
      | some g => exact h 0 v g rfl hg

/-- And the members those whose key the form knows. -/
theorem membersNestingAs_le_iff {f : Form} {ms : List (Option String × Json)} {n : Nat} :
    membersNestingAs ms f ≤ n ↔
      ∀ key w g, (some key, w) ∈ ms → f.member? key = some g → w.nestingAs g ≤ n := by
  induction ms with
  | nil => simp [membersNestingAs]
  | cons m ms ih =>
    obtain ⟨key, v⟩ := m
    rw [membersNestingAs, Nat.max_le, ih]
    constructor
    · rintro ⟨hv, hms⟩ key' w g hw hg
      rcases List.mem_cons.1 hw with hw | hw
      · cases hw
        rw [Option.bind_some, hg] at hv
        exact hv
      · exact hms key' w g hw hg
    · intro h
      refine ⟨?_, fun key' w g hw hg => h key' w g (List.mem_cons_of_mem _ hw) hg⟩
      cases hg : key.bind f.member? with
      | none => exact Nat.zero_le n
      | some g =>
        obtain ⟨key, rfl, hg⟩ := Option.bind_eq_some_iff.1 hg
        exact h key v g List.mem_cons_self hg

/-- A document nests one deeper than what is looked at in it. -/
theorem nestingAs_le_succ_iff {f : Form} {v : Json} {n : Nat} :
    v.nestingAs f ≤ n + 1 ↔ ∀ g w, v.Part f g w → w.nestingAs g ≤ n := by
  cases v with
  | null | bool | number | string =>
    exact ⟨fun _ _ _ h => (nomatch h), fun _ => Nat.zero_le _⟩
  | array vs =>
    rw [nestingAs, Nat.add_le_add_iff_right, itemsNestingAs_le_iff]
    constructor
    · intro h g w hpart
      cases hpart with
      | item hw hg => exact h _ w g hw (by rwa [Nat.zero_add])
    · intro h j w g hw hg
      exact h g w (.item hw (by rwa [Nat.zero_add] at hg))
  | object ms =>
    rw [nestingAs, Nat.add_le_add_iff_right, membersNestingAs_le_iff]
    constructor
    · intro h g w hpart
      cases hpart with
      | member hw hg => exact h _ w g hw hg
    · intro h key w g hw hg
      exact h g w (.member hw hg)

end Json

namespace Record

theorem names_nodup (r : Record) : r.names.Nodup := by cases r <;> decide

theorem find?_name {r : Record} : ∀ field ∈ r.fields,
    r.fields.find? (·.name == field.name) = some field := by
  cases r <;> decide

/-- The keys that a record knows are the names of its fields. -/
theorem member?_eq_some_iff {r : Record} {key : String} {g : Form} :
    (Form.record r).member? key = some g ↔
      ∃ field ∈ r.fields, field.name = key ∧ field.form = g := by
  rw [Form.member?, Option.map_eq_some_iff]
  constructor
  · rintro ⟨field, hfind, rfl⟩
    exact ⟨field, List.mem_of_find?_eq_some hfind, by simpa using List.find?_some hfind, rfl⟩
  · rintro ⟨field, hfield, rfl, rfl⟩
    exact ⟨field, find?_name field hfield, rfl⟩

end Record

namespace Json

variable {ms : List (Option String × Json)} {key : String} {w : Json} {v? : Option Json}

/-- A member is found if it is the only one with its key. -/
theorem member?_eq_some_some_iff :
    member? ms key = some (some w) ↔ ms.filter (·.1 == some key) = [(some key, w)] := by
  have hkey : ∀ m ∈ ms.filter (·.1 == some key), m.1 = some key := by
    intro m hm
    simpa using (List.mem_filter.1 hm).2
  rw [member?]
  split
  · next h => simp [h]
  · next k v h =>
    rw [h] at hkey
    obtain rfl : k = some key := hkey _ (List.mem_singleton.2 rfl)
    simp [h]
  · next h hne =>
    simp only [reduceCtorEq, false_iff]
    exact hne _ _

theorem member?_eq_some_none_iff :
    member? ms key = some none ↔ ∀ m ∈ ms, m.1 ≠ some key := by
  have hfilter : (∀ m ∈ ms, m.1 ≠ some key) ↔ ms.filter (·.1 == some key) = [] := by
    rw [List.filter_eq_nil_iff]
    simp
  rw [hfilter, member?]
  split
  · next h => simp [h]
  · next h => simp [h]
  · next h hne =>
    simp only [reduceCtorEq, false_iff]
    exact h

/-- A member with the key is the one that is found. -/
theorem eq_some_of_mem (h : member? ms key = some v?) (hw : (some key, w) ∈ ms) : v? = some w := by
  cases v? with
  | none => exact absurd rfl (member?_eq_some_none_iff.1 h _ hw)
  | some v =>
    have hmem : (some key, w) ∈ ms.filter (·.1 == some key) := List.mem_filter.2 ⟨hw, by simp⟩
    rw [member?_eq_some_some_iff.1 h, List.mem_singleton] at hmem
    cases hmem
    rfl

theorem mem_of_member? (h : member? ms key = some (some w)) : (some key, w) ∈ ms := by
  have hmem : (some key, w) ∈ ms.filter (·.1 == some key) := by
    rw [member?_eq_some_some_iff.1 h]
    exact List.mem_singleton.2 rfl
  exact (List.mem_filter.1 hmem).1

/-- An array of the right length has every field, by its place. -/
theorem fields?_array_iff {names : List String} {items : List Json} {vs : List (Option Json)} :
    (array items).fields? names = some vs ↔ items.length = names.length ∧ vs = items.map some := by
  rw [fields?]
  split
  · next h => exact ⟨fun hv => ⟨h, (Option.some.inj hv).symm⟩, fun hv => congrArg some hv.2.symm⟩
  · next h => exact ⟨nofun, fun hv => absurd hv.1 h⟩

/-- An object has each field once or not at all, and no key that is no text. -/
theorem fields?_object_iff {names : List String} {vs : List (Option Json)} :
    (object ms).fields? names = some vs ↔ (∀ m ∈ ms, m.1.isSome) ∧
      List.Forall₂ (fun name v? => member? ms name = some v?) names vs := by
  rw [fields?]
  split
  · next h => exact ⟨fun hv => ⟨List.all_eq_true.1 h, mapM_eq_some_iff.1 hv⟩,
      fun hv => mapM_eq_some_iff.2 hv.2⟩
  · next h => exact ⟨nofun, fun hv => absurd (List.all_eq_true.2 hv.1) h⟩

/-- What is looked at in a record are the fields that are present. -/
theorem part_record_iff {r : Record} {v : Json} {vs : List (Option Json)} {g : Form}
    (h : v.fields? r.names = some vs) : v.Part (.record r) g w ↔
      ∃ field, (field, some w) ∈ r.fields.zip vs ∧ g = field.form := by
  cases v with
  | null | bool | number | string => cases h
  | array items =>
    obtain ⟨-, rfl⟩ := fields?_array_iff.1 h
    constructor
    · intro hpart
      cases hpart with
      | @item _ i _ _ hw hg =>
        obtain ⟨field, hfield, rfl⟩ := Option.map_eq_some_iff.1 hg
        refine ⟨field, List.mem_iff_getElem?.2 ⟨i, ?_⟩, rfl⟩
        rw [List.getElem?_zip_eq_some]
        exact ⟨hfield, by simp [hw]⟩
    · rintro ⟨field, hmem, rfl⟩
      obtain ⟨i, hi⟩ := List.mem_iff_getElem?.1 hmem
      obtain ⟨hfield, hw⟩ := List.getElem?_zip_eq_some.1 hi
      have hitem : items[i]? = some w := by simpa using hw
      exact .item hitem (by rw [Form.item?, hfield, Option.map_some])
  | object ms =>
    obtain ⟨-, hvs⟩ := fields?_object_iff.1 h
    rw [Record.names, List.forall₂_map_left_iff] at hvs
    constructor
    · intro hpart
      cases hpart with
      | @member _ key _ _ hw hg =>
        obtain ⟨field, hfield, rfl, rfl⟩ := Record.member?_eq_some_iff.1 hg
        obtain ⟨v?, hmem, hv⟩ := exists_mem_zip_of_forall₂ hvs hfield
        obtain rfl := eq_some_of_mem hv hw
        exact ⟨field, hmem, rfl⟩
    · rintro ⟨field, hmem, rfl⟩
      have hw : member? ms field.name = some (some w) := List.forall₂_zip hvs hmem
      exact .member (mem_of_member? hw)
        (Record.member?_eq_some_iff.2 ⟨field, (List.of_mem_zip hmem).1, rfl, rfl⟩)

end Json

/-! ## Room -/

/-- A field that may be left out is null, or read; every other one is read. -/
theorem Field.normal?_eq_some_iff {normal : Form → Json → Option Json} {field : Field}
    {v? : Option Json} {w : Json} : field.normal? normal v? = some w ↔
      (field.optional ∧ (v? = none ∨ v? = some .null) ∧ w = .null) ∨
        ∃ v, v? = some v ∧ (field.optional → v ≠ .null) ∧ normal field.form v = some w := by
  cases v? with
  | none => cases h : field.optional <;> simp [Field.normal?, h, eq_comm]
  | some v => cases v <;> cases h : field.optional <;> simp [Field.normal?, h, eq_comm]

namespace Form

variable {n m : Nat} {f : Form} {v c : Json}

/-- A document with a canonical form nests no deeper than there was room for. -/
theorem nestingAs_le_of_normal? (h : normal? n f v = some c) : v.nestingAs f ≤ n := by
  induction n generalizing f v c with
  | zero =>
    cases f with
    | text | integer | truth =>
      cases v <;> first | exact Nat.le_refl 0 | cases h
    | operator symbols =>
      obtain ⟨s, -, rfl | ⟨hroom, -⟩, -⟩ := normal?_operator_iff.1 h
      · exact Nat.le_refl 0
      · cases hroom
    | list | record | variant => cases h
  | succ n ih =>
    rw [Json.nestingAs_le_succ_iff]
    intro g w hpart
    cases f with
    | text | integer | truth | operator =>
      cases hpart with
      | item _ hg | member _ hg => cases hg
    | list f =>
      obtain ⟨vs, ws, rfl, hws, -⟩ := normal?_list_iff.1 h
      cases hpart with
      | item hw hg =>
        cases hg
        obtain ⟨c, -, hc⟩ := exists_mem_zip_of_forall₂ hws (List.mem_of_getElem? hw)
        exact ih hc
    | record r =>
      obtain ⟨vs, ws, hvs, hws, -⟩ := normal?_record_iff.1 h
      obtain ⟨field, hmem, rfl⟩ := (Json.part_record_iff hvs).1 hpart
      obtain ⟨c, -, hc⟩ := exists_mem_zip_of_forall₂ hws hmem
      rcases Field.normal?_eq_some_iff.1 hc with ⟨-, hnull, -⟩ | ⟨w', hw', -, hc⟩
      · obtain rfl : w = .null := by simpa using hnull
        exact Nat.zero_le n
      · cases hw'
        exact ih hc
    | variant x =>
      obtain ⟨tag, content, f, d, rfl, hf, hd, -⟩ := normal?_variant_iff.1 h
      cases hpart with
      | member hw hg =>
        cases List.mem_singleton.1 hw
        cases hf.symm.trans hg
        exact ih hd

/-- Any room that a document fits in does. -/
theorem normal?_of_nestingAs_le (h : normal? n f v = some c) (hm : v.nestingAs f ≤ m) :
    normal? m f v = some c := by
  induction n generalizing f v c m with
  | zero =>
    cases f with
    | text | integer | truth => cases m <;> exact h
    | operator symbols =>
      obtain ⟨s, hs, rfl | ⟨hroom, -⟩, rfl⟩ := normal?_operator_iff.1 h
      · exact normal?_operator_iff.2 ⟨s, hs, .inl rfl, rfl⟩
      · cases hroom
    | list | record | variant => cases h
  | succ n ih =>
    cases f with
    | text | integer | truth => cases m <;> exact h
    | operator symbols =>
      obtain ⟨s, hs, rfl | ⟨-, rfl⟩, rfl⟩ := normal?_operator_iff.1 h
      · exact normal?_operator_iff.2 ⟨s, hs, .inl rfl, rfl⟩
      · have hpos := Nat.lt_of_lt_of_le (Nat.succ_pos _) hm
        exact normal?_operator_iff.2 ⟨s, hs, .inr ⟨hpos, rfl⟩, rfl⟩
    | list f =>
      obtain ⟨vs, ws, rfl, hws, rfl⟩ := normal?_list_iff.1 h
      obtain _ | m := m
      · cases hm
      rw [Json.nestingAs_le_succ_iff] at hm
      refine normal?_list_iff.2 ⟨vs, ws, rfl, ?_, rfl⟩
      refine (List.forall₂_and_left _ _).2 ⟨?_, hws⟩ |>.imp fun v w hvw => ih hvw.2 hvw.1
      intro v hv
      obtain ⟨i, hi⟩ := List.mem_iff_getElem?.1 hv
      exact hm f v (.item hi rfl)
    | record r =>
      obtain ⟨vs, ws, hvs, hws, rfl⟩ := normal?_record_iff.1 h
      obtain _ | m := m
      · cases v with
        | null | bool | number | string => cases hvs
        | array | object => cases hm
      rw [Json.nestingAs_le_succ_iff] at hm
      refine normal?_record_iff.2 ⟨vs, ws, hvs, ?_, rfl⟩
      refine (List.forall₂_and_left _ _).2 ⟨fun fv => id, hws⟩ |>.imp ?_
      rintro ⟨field, v?⟩ w ⟨hmem, hw⟩
      rw [Field.normal?_eq_some_iff] at hw ⊢
      refine hw.imp_right ?_
      rintro ⟨v, rfl, hnull, hv⟩
      have hpart := (Json.part_record_iff hvs).2 ⟨field, hmem, rfl⟩
      exact ⟨v, rfl, hnull, ih hv (hm field.form v hpart)⟩
    | variant x =>
      obtain ⟨tag, content, f, d, rfl, hf, hd, rfl⟩ := normal?_variant_iff.1 h
      obtain _ | m := m
      · cases hm
      rw [Json.nestingAs_le_succ_iff] at hm
      exact normal?_variant_iff.2 ⟨tag, content, f, d, rfl, hf,
        ih hd (hm f content (.member List.mem_cons_self hf)), rfl⟩

/-- The canonical form nests no deeper than there was room for. -/
theorem nesting_le_of_normal? (h : normal? n f v = some c) : c.nesting ≤ n := by
  induction n generalizing f v c with
  | zero =>
    cases f with
    | text | integer | truth =>
      obtain ⟨x, -, rfl⟩ := Option.map_eq_some_iff.1 h
      exact Nat.le_refl 0
    | operator symbols =>
      obtain ⟨s, -, -, rfl⟩ := normal?_operator_iff.1 h
      exact Nat.le_refl 0
    | list | record | variant => cases h
  | succ n ih =>
    cases f with
    | text | integer | truth =>
      obtain ⟨x, -, rfl⟩ := Option.map_eq_some_iff.1 h
      exact Nat.zero_le _
    | operator symbols =>
      obtain ⟨s, -, -, rfl⟩ := normal?_operator_iff.1 h
      exact Nat.zero_le _
    | list f =>
      obtain ⟨vs, ws, -, hws, rfl⟩ := normal?_list_iff.1 h
      rw [Json.nesting, Nat.add_le_add_iff_right, Json.itemsNesting_le_iff]
      intro w hw
      obtain ⟨v, -, hv⟩ := exists_mem_zip_of_forall₂ hws.flip hw
      exact ih hv
    | record r =>
      obtain ⟨vs, ws, -, hws, rfl⟩ := normal?_record_iff.1 h
      rw [Json.nesting, Nat.add_le_add_iff_right, Json.membersNesting_le_iff]
      rintro ⟨key, w⟩ hw
      obtain ⟨⟨field, v?⟩, -, hv⟩ := exists_mem_zip_of_forall₂ hws.flip (List.of_mem_zip hw).2
      rcases Field.normal?_eq_some_iff.1 hv with ⟨-, -, rfl⟩ | ⟨v, -, -, hv⟩
      · exact Nat.zero_le _
      · exact ih hv
    | variant x =>
      obtain ⟨tag, content, f, d, -, -, hd, rfl⟩ := normal?_variant_iff.1 h
      rw [Json.nesting, Nat.add_le_add_iff_right, Json.membersNesting_le_iff]
      intro m hm
      obtain rfl := List.mem_singleton.1 hm
      exact ih hd

end Form

end Monkey
