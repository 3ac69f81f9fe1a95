import Mathlib.Logic.Relation
import Monkey.Proofs.Reading
import Monkey.Proofs.RoundTrip
import Monkey.Syntax.Rewording

/-!
# Monkey — what the decoder reads

The decoder reads the structure of a text and not its spelling. A change of a document that
leaves alone what it says leaves its canonical form alone (`Form.Rewords.reads_iff`), and one
that spoils it leaves none (`Form.Spoils.not_reads`), each by induction over where the change
is made. For texts this is `Program.decoding_reads_structure`.
-/

namespace Monkey

namespace Record

variable {r : Record} {vs : List Json}

/-- An object with the fields of a record has them as an array has. -/
theorem fields?_members (h : vs.length = r.fields.length) :
    (Json.object (r.members vs)).fields? r.names = some (vs.map some) := by
  have hlength : r.names.length = vs.length := by rw [names, List.length_map, h]
  have hmembers : r.members vs = (r.names.zip vs).map fun nv => (some nv.1, nv.2) := by
    rw [members, List.zip_map_left]
    rfl
  have hkeys : (r.names.zip vs).map Prod.fst = r.names := List.map_fst_zip hlength.le
  rw [Json.fields?_object_iff, List.forall₂_map_right_iff, List.forall₂_iff_zip]
  refine ⟨fun m hm => ?_, hlength, fun {name v} hmem => ?_⟩
  · rw [hmembers] at hm
    obtain ⟨nv, -, rfl⟩ := List.mem_map.1 hm
    rfl
  · -- No other member has the key, as no name is repeated.
    obtain ⟨before, after, hsplit⟩ := List.append_of_mem hmem
    rw [hmembers, hsplit, List.map_append, List.map_cons, Json.member?_middle_iff]
    refine ⟨rfl, fun m hm hname => ?_⟩
    have hnodup := r.names_nodup
    rw [← hkeys, hsplit, List.map_append, List.map_cons, List.nodup_middle,
      ← List.map_append] at hnodup
    rw [← List.map_append] at hm
    obtain ⟨nv, hnv, rfl⟩ := List.mem_map.1 hm
    refine (List.nodup_cons.1 hnodup).1 (List.mem_map.2 ⟨nv, hnv, ?_⟩)
    exact Option.some.inj hname

end Record

/-- A field that may be left out is no integer. -/
theorem Record.form_of_optional {r : Record} : ∀ field ∈ r.fields, field.optional →
    field.form ≠ .integer := by
  cases r <;> decide

namespace Form

variable {f : Form} {v w c d : Json}

/-! ## Changes that leave alone what is said -/

theorem Rewords.ne_null (h : f.Rewords v w) : v ≠ .null ∧ w ≠ .null := by
  cases h <;> exact ⟨nofun, nofun⟩

/-- A change that leaves alone what a document says leaves its canonical form alone. -/
theorem Rewords.reads_iff (h : f.Rewords v w) : f.Reads v c ↔ f.Reads w c := by
  induction h generalizing c with
  | @permute r ms ms' hperm =>
    refine reads_record_congr fun field _ c => ?_
    rw [Field.readsIn_object_iff, Field.readsIn_object_iff, Json.member?_perm hperm]
    simp only [hperm.mem_iff]
  | @insert r key v ms ns hkey =>
    refine reads_record_congr fun field hfield c => ?_
    refine (Field.readsIn_middle_iff_of_ne ?_).symm
    rintro rfl
    exact hkey (List.mem_map_of_mem hfield)
  | @enumerate r vs hlength =>
    refine reads_record_of_fields? ?_
    have hnames : vs.length = r.names.length := by rw [hlength, Record.names, List.length_map]
    rw [Record.fields?_members hlength, Json.fields?_array_iff.2 ⟨hnames, rfl⟩]
  | unfold =>
    rw [reads_operator_iff, reads_operator_iff]
    refine exists_congr fun s => and_congr_right fun _ => and_congr_left fun _ => ?_
    simp
  | @drop r field ms ns hfield hoptional hother =>
    refine reads_record_congr fun field' hfield' c => ?_
    by_cases hname : field.name = field'.name
    · obtain rfl := Field.eq_of_name_eq hfield hfield' hname
      rw [Field.readsIn_middle_iff, Field.readsIn_absent_iff hother, Field.reads_some_iff,
        Field.reads_none_iff]
      have hall : (∀ m ∈ ms ++ ns, m.1.isSome ∧ m.1 ≠ some field.name) ↔
          ∀ m ∈ ms ++ ns, m.1.isSome := forall₂_congr fun m hm => and_iff_left (hother m hm)
      rw [hall]
      simp [hoptional]
    · exact Field.readsIn_middle_iff_of_ne hname
  | item _ ih =>
    rw [reads_array_iff, reads_array_iff]
    simp only [forall₂_middle_congr fun _ => ih]
  | @member r field v w ms ns hfield hvw ih =>
    refine reads_record_congr fun field' hfield' c => ?_
    by_cases hname : field.name = field'.name
    · obtain rfl := Field.eq_of_name_eq hfield hfield' hname
      rw [Field.readsIn_middle_iff, Field.readsIn_middle_iff, Field.reads_some_iff,
        Field.reads_some_iff, ih]
      simp [hvw.ne_null]
    · rw [Field.readsIn_middle_iff_of_ne hname, Field.readsIn_middle_iff_of_ne hname]
  | @element r field v w vs ws hfield hvw ih =>
    refine reads_record_congr fun field' hfield' c => ?_
    by_cases hidx : r.fields[vs.length]? = some field'
    · obtain rfl := Option.some.inj (hfield.symm.trans hidx)
      rw [Field.readsIn_element_iff hfield, Field.readsIn_element_iff hfield, Field.reads_some_iff,
        Field.reads_some_iff, ih]
      simp [hvw.ne_null]
    · exact Field.readsIn_element_iff_of_ne hidx hfield'
  | content hmem _ ih =>
    rw [reads_content_iff hmem, reads_content_iff hmem]
    simp only [ih]

/-! ## Changes that spoil -/

/-- No change that spoils a document is made at a null, or makes one of a record. -/
theorem Spoils.ne_null (h : f.Spoils v w) : v ≠ .null ∧ (w = .null → f = .integer) := by
  cases h <;> exact ⟨nofun, by simp⟩

/-- Where a field is spoilt, it is not for its being left out that it is read. -/
theorem Spoils.reads_some {r : Record} {field : Field} (h : field.form.Spoils v w)
    (hfield : field ∈ r.fields) (hv : field.Reads (some v) c) (hw : field.Reads (some w) d) :
    field.form.Reads v c ∧ field.form.Reads w d := by
  obtain ⟨hv0, hw0⟩ := h.ne_null
  rw [Field.reads_some_iff] at hv hw
  constructor
  · rcases hv with ⟨-, hnull, -⟩ | ⟨-, hv⟩
    · exact absurd hnull hv0
    · exact hv
  · rcases hw with ⟨hoptional, hnull, -⟩ | ⟨-, hw⟩
    · exact absurd (hw0 hnull) (Record.form_of_optional field hfield hoptional)
    · exact hw

/-- A change that spoils a document that can be read leaves one that cannot. -/
theorem Spoils.not_reads (h : f.Spoils v w) (hv : f.Reads v c) (hw : w.Spellable) :
    ¬ f.Reads w d := by
  intro hd
  induction h generalizing c d with
  | @remove r field v ms ns hfield hrequired =>
    obtain ⟨_, hv⟩ := readsIn_of_reads hv hfield
    obtain ⟨_, hw⟩ := readsIn_of_reads hd hfield
    have hother := (Field.readsIn_middle_iff.1 hv).1
    have hnone := (Field.readsIn_absent_iff fun m hm => (hother m hm).2).1 hw
    have hoptional := (Field.reads_none_iff.1 hnone.2).1
    rw [hrequired] at hoptional
    cases hoptional
  | @duplicate r field v w ms ns hfield hmem =>
    obtain ⟨_, hw⟩ := readsIn_of_reads hd hfield
    have hother := (Field.readsIn_middle_iff.1 hw).1
    exact (hother _ hmem).2 rfl
  | @resize r vs ws hlength =>
    -- both arrays would have one item for each field
    have hvs := length_of_reads_array hv
    have hws := length_of_reads_array hd
    omega
  | @crowd f m m' ms ns htagged =>
    cases f with
    | operator symbols =>
      obtain ⟨s, -, hw | hw, -⟩ := reads_operator_iff.1 hd <;> cases hw
    | variant x =>
      obtain ⟨tag, content, f, d, hw, -⟩ := reads_variant_iff.1 hd
      cases hw
    | text | integer | truth | list | record => cases htagged
  | @retag f key v ms htagged hkey =>
    cases f with
    | operator symbols =>
      obtain ⟨s, hs, hw | hw, -⟩ := reads_operator_iff.1 hd <;> cases hw
      exact hkey s hs rfl
    | variant x =>
      obtain ⟨tag, content, g, u, hw', -⟩ := reads_variant_iff.1 hd
      cases hw'
      obtain ⟨room, hd⟩ := hd
      have htag : tag ∉ x.tags.map Prod.fst := fun hmem => hkey tag hmem rfl
      rw [normal?_no_tag htag] at hd
      cases hd
    | text | integer | truth | list | record => cases htagged
  | @resymbol symbols s key hkey =>
    obtain ⟨s, hs, hw | hw, -⟩ := reads_operator_iff.1 hd <;> cases hw
    exact hkey s hs rfl
  | @renumber lexeme v hnumber =>
    obtain ⟨n, hn, -⟩ := reads_integer_iff.1 hd
    exact hnumber n (Json.eq_ofInt_of_int64? hw hn)
  | @item f v w vs ws _ ih =>
    obtain ⟨us, hus, -⟩ := reads_array_iff.1 hv
    obtain ⟨xs, hxs, -⟩ := reads_array_iff.1 hd
    obtain ⟨u, -, hu⟩ := exists_mem_zip_of_forall₂ hus (List.mem_append_right vs List.mem_cons_self)
    obtain ⟨x, -, hx⟩ := exists_mem_zip_of_forall₂ hxs (List.mem_append_right vs List.mem_cons_self)
    have hspellable := Json.spellable_array_iff.1 hw w (List.mem_append_right vs List.mem_cons_self)
    exact ih hu hspellable hx
  | @member r field v w ms ns hfield hvw ih =>
    obtain ⟨c, hc⟩ := readsIn_of_reads hv hfield
    obtain ⟨d, hd⟩ := readsIn_of_reads hd hfield
    obtain ⟨hc, hd⟩ := hvw.reads_some hfield (Field.readsIn_middle_iff.1 hc).2
      (Field.readsIn_middle_iff.1 hd).2
    have hspellable := Json.spellable_object_iff.1 hw (some field.name, w)
      (List.mem_append_right ms List.mem_cons_self)
    exact ih hc hspellable.2 hd
  | @element r field v w vs ws hfield hvw ih =>
    have hmem := List.mem_of_getElem? hfield
    obtain ⟨c, hc⟩ := readsIn_of_reads hv hmem
    obtain ⟨d, hd⟩ := readsIn_of_reads hd hmem
    obtain ⟨hc, hd⟩ := hvw.reads_some hmem ((Field.readsIn_element_iff hfield).1 hc).2
      ((Field.readsIn_element_iff hfield).1 hd).2
    have hspellable := Json.spellable_array_iff.1 hw w (List.mem_append_right vs List.mem_cons_self)
    exact ih hc hspellable hd
  | @content x tag f v w hmem _ ih =>
    obtain ⟨c, hc, -⟩ := (reads_content_iff hmem).1 hv
    obtain ⟨d, hd, -⟩ := (reads_content_iff hmem).1 hd
    exact ih hc (Json.spellable_object_iff.1 hw _ List.mem_cons_self).2 hd

end Form

/-! ## Texts -/

namespace Program

variable {p : Program Unit} {text : String}

/-- A text reads as a program if its document does and no more than so many brackets of what
is looked at are open at once. -/
theorem decode?_eq_some_iff_reads : decode? text = some p ↔
    ∃ v : Json, v.Spelled text ∧ Form.program.Reads v p.toJson ∧ v.nestingAs .program ≤ 127 := by
  rw [decode?_eq_some_iff]
  exact exists_congr fun v => and_congr_right fun _ => Form.normal?_iff_reads

/-- **The decoder reads structure, not spelling.** Let a text read as a program. Every
combination of changes that leave alone what its document says makes a document that every
text of it reads as the same program, as long as it fits; and one more change that spoils
makes one of which no text reads as any program. -/
theorem decoding_reads_structure (h : decode? text = some p) :
    ∃ v : Json, v.Spelled text ∧ ∀ w, Relation.EqvGen (Form.Rewords .program) v w →
      (∀ text', w.Spelled text' → w.nestingAs .program ≤ 127 → decode? text' = some p) ∧
      (∀ x text', Form.Spoils .program w x → x.Spelled text' → decode? text' = none) := by
  obtain ⟨v, hv, hreads, -⟩ := decode?_eq_some_iff_reads.1 h
  refine ⟨v, hv, fun w hvw => ?_⟩
  have hw : Form.program.Reads w p.toJson := by
    -- Room plays no part here, so the documents in between may nest as deep as they like.
    have hsame : Form.program.Reads v p.toJson ↔ Form.program.Reads w p.toJson := by
      clear hv hreads
      induction hvw with
      | rel _ _ hstep => exact hstep.reads_iff
      | refl => exact Iff.rfl
      | symm _ _ _ ih => exact ih.symm
      | trans _ _ _ _ _ ih ih' => exact ih.trans ih'
    exact hsame.1 hreads
  constructor
  · exact fun text' htext' hnesting => decode?_eq_some_iff_reads.2 ⟨w, htext', hw, hnesting⟩
  · intro x text' hspoils htext'
    rw [Option.eq_none_iff_forall_ne_some]
    intro q hq
    obtain ⟨x', hx', hq, -⟩ := decode?_eq_some_iff_reads.1 hq
    obtain rfl : x = x' := Option.some.inj
      ((Json.parse?_eq_some_iff.2 htext').symm.trans (Json.parse?_eq_some_iff.2 hx'))
    exact hspoils.not_reads hw htext'.spellable hq

/-- The empty program as an object, as an array, and as an array that is too short. -/
theorem decoding_reads_structure_of_an_array :
    decode? "\x7b\x22statements\x22: []\x7d" = some ⟨[]⟩ ∧ decode? "[[]]" = some ⟨[]⟩ ∧
      decode? "[]" = none := by
  have h : decode? "\x7b\x22statements\x22: []\x7d" = some ⟨[]⟩ :=
    decode?_eq_some_iff.2 ⟨.object [(some "statements", .array [])], Json.parse?_eq_some_iff.1 rfl,
      Form.normal?_mono (n := 2) rfl (by decide)⟩
  obtain ⟨v, hv, hsame⟩ := decoding_reads_structure h
  obtain rfl : v = .object [(some "statements", .array [])] :=
    Option.some.inj ((Json.parse?_eq_some_iff.2 hv).symm.trans rfl)
  have hrewords : Form.Rewords .program (.object [(some "statements", .array [])])
      (.array [.array []]) := @Form.Rewords.enumerate .block [.array []] rfl
  obtain ⟨haccepted, hrefused⟩ := hsame _ (.rel _ _ hrewords)
  have harray := haccepted "[[]]" (Json.parse?_eq_some_iff.1 rfl) (by decide)
  have hempty := hrefused (.array []) "[]" (.resize (by decide)) (Json.parse?_eq_some_iff.1 rfl)
  exact ⟨h, harray, hempty⟩

end Program

end Monkey
