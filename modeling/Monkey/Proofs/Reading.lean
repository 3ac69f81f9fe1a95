import Mathlib.Data.List.Nodup
import Monkey.Proofs.SchemaReading

/-!
# Monkey — reading with room enough

What a document reads as, if there is room for it (`Form.Reads`), form by form. Of a record
only its fields matter, whichever way it has them: `Field.ReadsIn` says what one field reads
as, and two documents with the same fields read the same (`Form.reads_record_congr`). A text
is read if its document reads and fits (`Form.normal?_iff_reads`).
-/

namespace Monkey

/-! ## Lists side by side -/

section

variable {α β γ : Type}

/-- What stands between two lists item by item can be chosen as a list. -/
theorem forall₂_exists_iff {R : α → β → Prop} {S : α × β → γ → Prop} {as : List α} {cs : List γ} :
    List.Forall₂ (fun a c => ∃ b, R a b ∧ S (a, b) c) as cs ↔
      ∃ bs, List.Forall₂ R as bs ∧ List.Forall₂ S (as.zip bs) cs := by
  induction as generalizing cs with
  | nil =>
    rw [List.forall₂_nil_left_iff]
    constructor
    · rintro rfl
      exact ⟨[], .nil, .nil⟩
    · rintro ⟨bs, -, h⟩
      exact List.forall₂_nil_left_iff.1 h
  | cons a as ih =>
    constructor
    · intro h
      cases h with
      | cons h hs =>
        obtain ⟨b, hb, hc⟩ := h
        obtain ⟨bs, hbs, hcs⟩ := ih.1 hs
        exact ⟨b :: bs, .cons hb hbs, .cons hc hcs⟩
    · rintro ⟨bs, hbs, hcs⟩
      cases hbs with
      | cons hb hbs => cases hcs with
        | cons hc hcs => exact .cons ⟨_, hb, hc⟩ (ih.2 ⟨_, hbs, hcs⟩)

/-- What holds of every pair from some number on holds of all pairs from some number on. -/
theorem exists_forall₂ {S : Nat → α → β → Prop} (hS : ∀ {n m a b}, S n a b → n ≤ m → S m a b)
    {as : List α} {bs : List β} (h : List.Forall₂ (fun a b => ∃ n, S n a b) as bs) :
    ∃ n, List.Forall₂ (S n) as bs := by
  induction h with
  | nil => exact ⟨0, .nil⟩
  | cons h _ ih =>
    obtain ⟨n, hn⟩ := h
    obtain ⟨m, hm⟩ := ih
    have hrest := hm.imp fun _ _ hab => hS hab (Nat.le_max_right n m)
    exact ⟨max n m, .cons (hS hn (Nat.le_max_left n m)) hrest⟩

/-- An item in the middle can be changed for one that is related to the same. -/
theorem forall₂_middle_congr {α β : Type} {R : α → β → Prop} {a a' : α} (h : ∀ b, R a b ↔ R a' b)
    {as as' : List α} {bs : List β} :
    List.Forall₂ R (as ++ a :: as') bs ↔ List.Forall₂ R (as ++ a' :: as') bs := by
  induction as generalizing bs with
  | nil => simp only [List.nil_append, List.forall₂_cons_left_iff, h]
  | cons b as ih => simp only [List.cons_append, List.forall₂_cons_left_iff, ih]

end

/-! ## Room enough -/

/-- The canonical form of a document, given room enough. -/
def Form.Reads (f : Form) (v c : Json) : Prop := ∃ room, f.normal? room v = some c

/-- The canonical form of a field, given room enough. -/
def Field.Reads (field : Field) (v? : Option Json) (c : Json) : Prop :=
  ∃ room, field.normal? (Form.normal? room) v? = some c

/-- What a document has as a field of a record; some of nothing if it leaves the field out. -/
def Json.field? (r : Record) (field : Field) : Json → Option (Option Json)
  | .object ms => if ms.all (·.1.isSome) then member? ms field.name else none
  | .array vs => if vs.length = r.fields.length then some vs[r.fields.idxOf field]? else none
  | _ => none

/-- The canonical form of the field of a record, in a document of it. -/
def Field.ReadsIn (r : Record) (field : Field) (v c : Json) : Prop :=
  ∃ v?, v.field? r field = some v? ∧ field.Reads v? c

/-- The fields of a record are what the document has as each of them, whether it is an object
or an array. -/
theorem Json.fields?_eq_mapM (r : Record) (v : Json) :
    v.fields? r.names = r.fields.mapM fun field => v.field? r field := by
  cases v with
  | null | bool | number | string => cases r <;> rfl
  | object ms =>
    rw [fields?]
    simp only [field?]
    split
    · rw [Record.names, List.mapM_map]
      rfl
    · cases r <;> rfl
  | array vs =>
    have hlength : r.names.length = r.fields.length := List.length_map _
    rw [fields?, hlength]
    simp only [field?]
    split
    · next h =>
      symm
      rw [mapM_eq_some_iff, List.forall₂_iff_get]
      refine ⟨by rw [List.length_map, h], fun i hi hvs => ?_⟩
      have hnodup : r.fields.Nodup := List.Nodup.of_map Field.name r.names_nodup
      have hi' : i < vs.length := by omega
      rw [List.get_eq_getElem, List.get_eq_getElem, hnodup.idxOf_getElem, List.getElem_map,
        List.getElem?_eq_getElem hi']
    · cases r <;> rfl

/-- More room does no harm. -/
theorem Form.normal?_mono {n m : Nat} {f : Form} {v c : Json} (h : normal? n f v = some c)
    (hnm : n ≤ m) : normal? m f v = some c :=
  normal?_of_nestingAs_le h (Nat.le_trans (nestingAs_le_of_normal? h) hnm)

theorem Field.normal?_mono {n m : Nat} {c : Json} {field : Field} {v? : Option Json}
    (h : field.normal? (Form.normal? n) v? = some c) (hnm : n ≤ m) :
    field.normal? (Form.normal? m) v? = some c := by
  rw [Field.normal?_eq_some_iff] at h ⊢
  refine h.imp_right ?_
  rintro ⟨v, rfl, hnull, hv⟩
  exact ⟨v, rfl, hnull, Form.normal?_mono hv hnm⟩

namespace Form

variable {n m : Nat} {f : Form} {v w c : Json}

/-- Room is needed for what is looked at and for nothing else. -/
theorem normal?_iff_reads : normal? n f v = some c ↔ f.Reads v c ∧ v.nestingAs f ≤ n := by
  constructor
  · exact fun h => ⟨⟨n, h⟩, nestingAs_le_of_normal? h⟩
  · rintro ⟨⟨m, h⟩, hn⟩
    exact normal?_of_nestingAs_le h hn

theorem reads_integer_iff :
    integer.Reads v c ↔ ∃ n : Int64, v.int64? = some n ∧ c = .ofInt n.toInt := by
  simp only [Reads, normal?_integer, Option.map_eq_some_iff, exists_const, eq_comm (a := c)]

/-- An operator reads as its symbol, from a string and from the key of an object. -/
theorem reads_operator_iff {symbols : List String} : (operator symbols).Reads v c ↔
    ∃ s ∈ symbols, (v = .string (some s) ∨ v = .object [(some s, .null)]) ∧ c = .ofString s := by
  simp only [Reads, normal?_operator_iff]
  constructor
  · rintro ⟨room, s, hs, hv, rfl⟩
    exact ⟨s, hs, hv.imp_right And.right, rfl⟩
  · rintro ⟨s, hs, hv, rfl⟩
    exact ⟨1, s, hs, hv.imp_right fun h => ⟨Nat.one_pos, h⟩, rfl⟩

/-- A list reads item by item; the room that every item needs is enough for all. -/
theorem reads_list_iff : (list f).Reads v c ↔
    ∃ vs ws, v = .array vs ∧ List.Forall₂ f.Reads vs ws ∧ c = .array ws := by
  constructor
  · rintro ⟨_ | room, h⟩
    · cases h
    obtain ⟨vs, ws, rfl, hws, rfl⟩ := normal?_list_iff.1 h
    exact ⟨vs, ws, rfl, hws.imp fun _ _ h => ⟨room, h⟩, rfl⟩
  · rintro ⟨vs, ws, rfl, hws, rfl⟩
    obtain ⟨room, hws⟩ := exists_forall₂ (S := fun n v w => normal? n f v = some w) normal?_mono hws
    exact ⟨room + 1, normal?_list_iff.2 ⟨vs, ws, rfl, hws, rfl⟩⟩

theorem reads_array_iff {vs : List Json} :
    (list f).Reads (.array vs) c ↔ ∃ ws, List.Forall₂ f.Reads vs ws ∧ c = .array ws := by
  rw [reads_list_iff]
  constructor
  · rintro ⟨_, ws, hvs, hws, hc⟩
    cases hvs
    exact ⟨ws, hws, hc⟩
  · rintro ⟨ws, hws, hc⟩
    exact ⟨vs, ws, rfl, hws, hc⟩

/-- A variant reads as its content does, under the same tag. -/
theorem reads_variant_iff {x : Variant} : (variant x).Reads v c ↔
    ∃ tag content f d, v = .object [(some tag, content)] ∧ x.tags.lookup tag = some f ∧
      f.Reads content d ∧ c = .object [(some tag, d)] := by
  constructor
  · rintro ⟨_ | room, h⟩
    · cases h
    obtain ⟨tag, content, f, d, hv, hf, hd, hc⟩ := normal?_variant_iff.1 h
    exact ⟨tag, content, f, d, hv, hf, ⟨room, hd⟩, hc⟩
  · rintro ⟨tag, content, f, d, hv, hf, ⟨room, hd⟩, hc⟩
    exact ⟨room + 1, normal?_variant_iff.2 ⟨tag, content, f, d, hv, hf, hd, hc⟩⟩

/-- A record reads field by field, in the order of its fields and not of the document. -/
theorem reads_record_iff {r : Record} : (record r).Reads v c ↔
    ∃ ws, List.Forall₂ (fun field w => field.ReadsIn r v w) r.fields ws ∧
      c = .object (r.members ws) := by
  constructor
  · rintro ⟨_ | room, h⟩
    · cases h
    obtain ⟨vs, ws, hvs, hws, hc⟩ := normal?_record_iff.1 h
    rw [Json.fields?_eq_mapM, mapM_eq_some_iff] at hvs
    have hreads := hws.imp fun (fv : Field × Option Json) w hw => (⟨room, hw⟩ : fv.1.Reads fv.2 w)
    exact ⟨ws, forall₂_exists_iff.2 ⟨vs, hvs, hreads⟩, hc⟩
  · rintro ⟨ws, hws, hc⟩
    obtain ⟨vs, hvs, hws⟩ := forall₂_exists_iff
      (S := fun (fv : Field × Option Json) w => fv.1.Reads fv.2 w) |>.1 hws
    obtain ⟨room, hws⟩ := exists_forall₂
      (S := fun n (fv : Field × Option Json) w => fv.1.normal? (normal? n) fv.2 = some w)
      Field.normal?_mono hws
    rw [← mapM_eq_some_iff, ← Json.fields?_eq_mapM] at hvs
    exact ⟨room + 1, normal?_record_iff.2 ⟨vs, ws, hvs, hws, hc⟩⟩

end Form

namespace Field

variable {r : Record} {field : Field} {v w c : Json}

theorem reads_none_iff : field.Reads none c ↔ field.optional ∧ c = .null := by
  simp [Reads, normal?_eq_some_iff]

/-- A field that is present is read, but for null where it may be left out. -/
theorem reads_some_iff : field.Reads (some v) c ↔
    (field.optional ∧ v = .null ∧ c = .null) ∨
      (field.optional → v ≠ .null) ∧ field.form.Reads v c := by
  simp only [Reads, normal?_eq_some_iff, Form.Reads, Option.some_inj, reduceCtorEq, false_or]
  constructor
  · rintro ⟨room, hnull | ⟨_, rfl, hnull, hv⟩⟩
    · exact .inl hnull
    · exact .inr ⟨hnull, room, hv⟩
  · rintro (hnull | ⟨hnull, room, hv⟩)
    · exact ⟨0, .inl hnull⟩
    · exact ⟨room, .inr ⟨v, rfl, hnull, hv⟩⟩

end Field

namespace Json

variable {ms ns : List (Option String × Json)} {key key' : String} {v w : Json} {v? : Option Json}

/-- The order of the members does not matter for what is found. -/
theorem member?_perm {ms' : List (Option String × Json)} (h : ms.Perm ms') :
    member? ms key = member? ms' key := by
  ext v?
  have hfilter := h.filter fun m => m.1 == some key
  cases v? with
  | none =>
    change member? ms key = some none ↔ member? ms' key = some none
    simp only [member?_eq_some_none_iff, h.mem_iff]
  | some v =>
    change member? ms key = some (some v) ↔ member? ms' key = some (some v)
    rw [member?_eq_some_some_iff, member?_eq_some_some_iff, ← List.perm_singleton,
      ← List.perm_singleton]
    exact ⟨hfilter.symm.trans, hfilter.trans⟩

theorem member?_middle_of_ne (h : key' ≠ key) :
    member? (ms ++ (some key', v) :: ns) key = member? (ms ++ ns) key := by
  have hkey : (some key' == some key) = false := by simpa using h
  simp only [member?, List.filter_append, List.filter_cons, hkey]
  rfl

/-- A member is found if no other one has its key. -/
theorem member?_middle_iff : member? (ms ++ (some key, v) :: ns) key = some v? ↔
    v? = some v ∧ ∀ m ∈ ms ++ ns, m.1 ≠ some key := by
  have hperm : (ms ++ (some key, v) :: ns).Perm ((some key, v) :: (ms ++ ns)) := List.perm_middle
  rw [member?_perm hperm, member?, List.filter_cons_of_pos (by simp)]
  cases hrest : (ms ++ ns).filter (·.1 == some key) with
  | nil =>
    have hother : ∀ m ∈ ms ++ ns, m.1 ≠ some key := by simpa using List.filter_eq_nil_iff.1 hrest
    rw [Option.some_inj, eq_comm, and_iff_left hother]
  | cons m rest =>
    have hm : m ∈ (ms ++ ns).filter (·.1 == some key) := by
      rw [hrest]
      exact List.mem_cons_self
    obtain ⟨hm, hkey⟩ := List.mem_filter.1 hm
    refine ⟨fun h => ?_, fun h => absurd (by simpa using hkey) (h.2 m hm)⟩
    cases h

end Json

/-- No tag stands for two kinds. -/
theorem Variant.lookup_of_mem {x : Variant} : ∀ entry ∈ x.tags,
    x.tags.lookup entry.1 = some entry.2 := by
  cases x <;> decide

/-- No two fields of a record have one name. -/
theorem Field.eq_of_name_eq {r : Record} {field field' : Field} (h : field ∈ r.fields)
    (h' : field' ∈ r.fields) (hname : field.name = field'.name) : field = field' := by
  have hfind := Record.find?_name field h
  rw [hname, Record.find?_name field' h'] at hfind
  exact (Option.some.inj hfind).symm

theorem Record.idxOf_eq {r : Record} {field : Field} {i : Nat} (h : r.fields[i]? = some field) :
    r.fields.idxOf field = i := by
  obtain ⟨hi, rfl⟩ := List.getElem?_eq_some_iff.1 h
  exact (List.Nodup.of_map Field.name r.names_nodup).idxOf_getElem i hi

theorem forall_mem_middle {α : Type} {P : α → Prop} {a : α} {as bs : List α} :
    (∀ b ∈ as ++ a :: bs, P b) ↔ P a ∧ ∀ b ∈ as ++ bs, P b := by
  rw [List.forall_mem_append, List.forall_mem_cons, List.forall_mem_append, and_left_comm]

namespace Field

variable {r : Record} {field : Field} {ms ns : List (Option String × Json)} {vs ws : List Json}
  {key : String} {v c : Json}

theorem readsIn_object_iff : field.ReadsIn r (.object ms) c ↔
    (∀ m ∈ ms, m.1.isSome) ∧ ∃ v?, Json.member? ms field.name = some v? ∧ field.Reads v? c := by
  simp only [ReadsIn, Json.field?, ← List.all_eq_true]
  split <;> simp [*]

/-- A member that is another field, or no field, does not matter. -/
theorem readsIn_middle_iff_of_ne (h : key ≠ field.name) :
    field.ReadsIn r (.object (ms ++ (some key, v) :: ns)) c ↔
      field.ReadsIn r (.object (ms ++ ns)) c := by
  rw [readsIn_object_iff, readsIn_object_iff, Json.member?_middle_of_ne h, forall_mem_middle]
  simp only [Option.isSome_some, true_and]

/-- Where a field is present, its content is read, if it is there once. -/
theorem readsIn_middle_iff : field.ReadsIn r (.object (ms ++ (some field.name, v) :: ns)) c ↔
    (∀ m ∈ ms ++ ns, m.1.isSome ∧ m.1 ≠ some field.name) ∧ field.Reads (some v) c := by
  rw [readsIn_object_iff, forall_mem_middle]
  simp only [Option.isSome_some, true_and, Json.member?_middle_iff]
  constructor
  · rintro ⟨hall, _, ⟨rfl, hother⟩, hv⟩
    exact ⟨fun m hm => ⟨hall m hm, hother m hm⟩, hv⟩
  · rintro ⟨hother, hv⟩
    exact ⟨fun m hm => (hother m hm).1, _, ⟨rfl, fun m hm => (hother m hm).2⟩, hv⟩

/-- A field that is left out. -/
theorem readsIn_absent_iff (h : ∀ m ∈ ms, m.1 ≠ some field.name) :
    field.ReadsIn r (.object ms) c ↔ (∀ m ∈ ms, m.1.isSome) ∧ field.Reads none c := by
  rw [readsIn_object_iff, Json.member?_eq_some_none_iff.2 h]
  simp

theorem readsIn_array_iff : field.ReadsIn r (.array vs) c ↔
    vs.length = r.fields.length ∧ field.Reads vs[r.fields.idxOf field]? c := by
  simp only [ReadsIn, Json.field?]
  split <;> simp [*]

/-- In an array a field is told by its place. -/
theorem readsIn_element_iff (h : r.fields[vs.length]? = some field) :
    field.ReadsIn r (.array (vs ++ v :: ws)) c ↔
      (vs ++ v :: ws).length = r.fields.length ∧ field.Reads (some v) c := by
  rw [readsIn_array_iff, Record.idxOf_eq h, List.getElem?_append_right (Nat.le_refl _),
    Nat.sub_self, List.getElem?_cons_zero]

/-- An element that is another field does not matter. -/
theorem readsIn_element_iff_of_ne {w : Json} (h : r.fields[vs.length]? ≠ some field)
    (hmem : field ∈ r.fields) :
    field.ReadsIn r (.array (vs ++ v :: ws)) c ↔ field.ReadsIn r (.array (vs ++ w :: ws)) c := by
  have hne : r.fields.idxOf field ≠ vs.length := by
    intro hidx
    have hlt : r.fields.idxOf field < r.fields.length := List.idxOf_lt_length_iff.2 hmem
    rw [← hidx, List.getElem?_eq_getElem hlt, List.getElem_idxOf] at h
    exact h rfl
  have hget : (vs ++ v :: ws)[r.fields.idxOf field]? = (vs ++ w :: ws)[r.fields.idxOf field]? := by
    rcases Nat.lt_or_gt_of_ne hne with hlt | hgt
    · rw [List.getElem?_append_left hlt, List.getElem?_append_left hlt]
    · obtain ⟨i, hi⟩ : ∃ i, r.fields.idxOf field = vs.length + (i + 1) :=
        ⟨r.fields.idxOf field - vs.length - 1, by omega⟩
      rw [hi, List.getElem?_append_right (Nat.le_add_right _ _),
        List.getElem?_append_right (Nat.le_add_right _ _), Nat.add_sub_cancel_left,
        List.getElem?_cons_succ, List.getElem?_cons_succ]
  rw [readsIn_array_iff, readsIn_array_iff, hget]
  simp

end Field

namespace Form

variable {f : Form} {v w c d : Json}

/-- Two documents with the same fields read the same as a record. -/
theorem reads_record_of_fields? {r : Record} (h : v.fields? r.names = w.fields? r.names) :
    (record r).Reads v c ↔ (record r).Reads w c := by
  refine exists_congr fun room => ?_
  cases room with
  | zero => rfl
  | succ room => rw [normal?_record_iff, normal?_record_iff, h]

/-- An array that reads as a record has an element for every field. -/
theorem length_of_reads_array {r : Record} {vs : List Json} (h : (record r).Reads (.array vs) c) :
    vs.length = r.fields.length := by
  obtain ⟨_ | room, h⟩ := h
  · cases h
  obtain ⟨us, ws, hus, -⟩ := normal?_record_iff.1 h
  have hnames := (Json.fields?_array_iff.1 hus).1
  rwa [Record.names, List.length_map] at hnames

theorem reads_record_imp {r : Record}
    (h : ∀ field ∈ r.fields, ∀ c, field.ReadsIn r v c → field.ReadsIn r w c)
    (hv : (record r).Reads v c) : (record r).Reads w c := by
  obtain ⟨us, hus, hc⟩ := reads_record_iff.1 hv
  have hmem := (List.forall₂_and_left _ _).2 ⟨fun field (hfield : field ∈ r.fields) => hfield, hus⟩
  exact reads_record_iff.2 ⟨us, hmem.imp fun field u hu => h field hu.1 u hu.2, hc⟩

/-- Two documents that have the same fields read the same as a record. -/
theorem reads_record_congr {r : Record}
    (h : ∀ field ∈ r.fields, ∀ c, field.ReadsIn r v c ↔ field.ReadsIn r w c) :
    (record r).Reads v c ↔ (record r).Reads w c :=
  ⟨reads_record_imp fun field hfield c => (h field hfield c).1,
    reads_record_imp fun field hfield c => (h field hfield c).2⟩

/-- A document that reads as a record reads as every field of it. -/
theorem readsIn_of_reads {r : Record} (h : (record r).Reads v c) {field : Field}
    (hfield : field ∈ r.fields) : ∃ d, field.ReadsIn r v d := by
  obtain ⟨us, hus, -⟩ := reads_record_iff.1 h
  obtain ⟨u, -, hu⟩ := exists_mem_zip_of_forall₂ hus hfield
  exact ⟨u, hu⟩

/-- The content under a tag is all that matters in a variant. -/
theorem reads_content_iff {x : Variant} {tag : String} (h : (tag, f) ∈ x.tags) :
    (variant x).Reads (.object [(some tag, v)]) c ↔
      ∃ d, f.Reads v d ∧ c = .object [(some tag, d)] := by
  rw [reads_variant_iff]
  constructor
  · rintro ⟨tag', content, g, d, hv, hg, hd, rfl⟩
    cases hv
    cases (Variant.lookup_of_mem _ h).symm.trans hg
    exact ⟨d, hd, rfl⟩
  · rintro ⟨d, hd, rfl⟩
    exact ⟨tag, v, f, d, rfl, Variant.lookup_of_mem _ h, hd, rfl⟩

end Form

end Monkey
