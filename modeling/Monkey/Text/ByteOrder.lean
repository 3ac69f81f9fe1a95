import Mathlib.Data.String.Basic
import Mathlib.Tactic.SplitIfs

/-!
# Monkey — strings in byte order

Names are listed in the order of their UTF-8 bytes. Strings are compared character by
character, by code points; that is the same order, since the encodings of two characters
part at a byte, and there the smaller code point has the smaller byte.
-/

namespace Monkey

namespace Text

/-- The bytes of a string in UTF-8. -/
def bytes (s : String) : List UInt8 := s.toUTF8.data.toList

theorem bytes_eq (s : String) : bytes s = s.toList.flatMap String.utf8EncodeChar := by
  conv_lhs => rw [← s.ofList_toList]
  rw [bytes, String.toUTF8, String.toByteArray_ofList, List.utf8Encode]
  simp

/-- Two rows of bytes part at a byte, where the first one has the smaller. -/
inductive Parts : List UInt8 → List UInt8 → Prop
  | here {a b : UInt8} {as bs : List UInt8} : a < b → Parts (a :: as) (b :: bs)
  | later {a : UInt8} {as bs : List UInt8} : Parts as bs → Parts (a :: as) (a :: bs)

/-- What comes after rows that part does not matter. -/
theorem Parts.append_lt {as bs : List UInt8} (h : Parts as bs) (cs ds : List UInt8) :
    as ++ cs < bs ++ ds := by
  induction h with
  | here hlt => exact List.cons_lt_cons_iff.2 (.inl hlt)
  | later _ ih => exact List.cons_lt_cons_iff.2 (.inr ⟨rfl, ih⟩)

theorem Parts.ofNat {a b : Nat} {as bs : List UInt8} (hb : b < 256) (hle : a ≤ b)
    (h : a = b → Parts as bs) : Parts (.ofNat a :: as) (.ofNat b :: bs) := by
  rcases Nat.eq_or_lt_of_le hle with rfl | hlt
  · exact .later (h rfl)
  · refine .here ?_
    rw [UInt8.lt_iff_toNat_lt, UInt8.toNat_ofNat_of_lt' (Nat.lt_trans hlt hb),
      UInt8.toNat_ofNat_of_lt' hb]
    exact hlt

/-- The encodings of two characters part, in the order of the code points. An encoding of
fewer bytes begins with a smaller byte; among encodings of one length the bytes are the
digits of the code points, most significant first. -/
theorem parts_of_lt {c d : Char} (h : c < d) :
    Parts (String.utf8EncodeChar c) (String.utf8EncodeChar d) := by
  have hlt : c.val.toNat < d.val.toNat := h
  have hd : d.val.toNat < 0x110000 := by
    have hvalid := d.valid
    simp only [UInt32.isValidChar, Nat.isValidChar] at hvalid
    omega
  unfold String.utf8EncodeChar
  generalize c.val.toNat = v at hlt
  generalize d.val.toNat = w at hlt hd
  dsimp only
  split_ifs
  -- byte by byte: if two bytes are the same, so are the digits of the code points up to there
  all_goals first
    | omega
    | refine .ofNat (by omega) (by omega) fun h₁ => ?_
  all_goals first
    | omega
    | refine .ofNat (by omega) (by omega) fun h₂ => ?_
  all_goals first
    | omega
    | refine .ofNat (by omega) (by omega) fun h₃ => ?_
  all_goals first
    | omega
    | refine .ofNat (by omega) (by omega) fun h₄ => ?_
  all_goals omega

theorem bytes_lt_of_lt {s t : String} (h : s < t) : bytes s < bytes t := by
  rw [String.lt_iff] at h
  rw [bytes_eq, bytes_eq]
  generalize s.toList = cs at h
  generalize t.toList = ds at h
  induction h with
  | @nil d ds =>
    obtain ⟨b, bs, hd⟩ := List.exists_cons_of_ne_nil (String.utf8EncodeChar_ne_nil (c := d))
    rw [List.flatMap_nil, List.flatMap_cons, hd]
    exact List.nil_lt_cons _ _
  | rel hlt => exact (parts_of_lt hlt).append_lt _ _
  | cons _ ih => exact List.append_left_lt ih

/-- The order of strings is the order of their bytes. -/
theorem bytes_lt_bytes_iff {s t : String} : bytes s < bytes t ↔ s < t := by
  refine ⟨fun h => ?_, bytes_lt_of_lt⟩
  rcases lt_trichotomy s t with hlt | rfl | hgt
  · exact hlt
  · exact absurd h (List.lt_irrefl _)
  · exact absurd (bytes_lt_of_lt hgt) (List.lt_asymm h)

end Text

end Monkey
