import FlatScript.Text.Bytes
import Mathlib.Logic.Function.Basic

/-!
# Characters and their bytes

`Text.byteLength` counts bytes without writing any down.  Here it is tied to the bytes of a text
themselves, and what is known of bytes is carried back to the characters.

A byte below 128 is a character by itself, and no byte of a longer character is below 128.  So a
test that only such characters pass may as well look at single bytes; `Char.ofUInt8` is the
character that a byte is, or a character from 128 on if it is none.
-/

namespace FlatScript.Text

theorem size_utf8Encode (cs : List Char) : cs.utf8Encode.size = byteLength cs := by
  induction cs with
  | nil => rfl
  | cons c cs ih =>
      rw [List.utf8Encode_cons, ByteArray.size_append, ih, List.utf8Encode_singleton,
        List.size_toByteArray, String.length_utf8EncodeChar, byteLength_cons]

theorem utf8ByteSize_eq (s : String) : s.utf8ByteSize = byteLength s.toList := by
  rw [← String.size_toByteArray, ← String.utf8Encode_toList, size_utf8Encode]

/-- A byte offset on a character boundary cuts the text in two. -/
theorem exists_append_of_isValid {s : String} {offset : Nat}
    (h : String.Pos.Raw.IsValid s ⟨offset⟩) :
    ∃ before behind, s.toList = before ++ behind ∧ offset = byteLength before := by
  obtain ⟨s₁, s₂, rfl, hoffset⟩ := String.Pos.Raw.isValid_iff_exists_append.mp h
  refine ⟨s₁.toList, s₂.toList, String.toList_append, ?_⟩
  rw [← utf8ByteSize_eq, ← String.byteIdx_rawEndPos, ← hoffset]

theorem length_le_byteLength (cs : List Char) : cs.length ≤ byteLength cs := by
  induction cs with
  | nil => exact Nat.le_refl 0
  | cons c cs ih =>
      have hc := c.utf8Size_pos
      rw [List.length_cons, byteLength_cons]
      omega

/-! ## Bytes as lists -/

/-- The bytes of a text. -/
def bytes (s : String) : List UInt8 := s.toByteArray.data.toList

/-- The bytes of characters. -/
def encode (cs : List Char) : List UInt8 := cs.flatMap String.utf8EncodeChar

theorem bytes_eq (s : String) : bytes s = encode s.toList := by
  rw [bytes, ← String.utf8Encode_toList, List.utf8Encode, List.toList_data_toByteArray]
  rfl

theorem encode_cons (c : Char) (cs : List Char) :
    encode (c :: cs) = String.utf8EncodeChar c ++ encode cs := rfl

theorem encode_append (cs ds : List Char) : encode (cs ++ ds) = encode cs ++ encode ds :=
  List.flatMap_append

theorem length_encode (cs : List Char) : (encode cs).length = byteLength cs := by
  induction cs with
  | nil => rfl
  | cons c cs ih =>
      rw [encode_cons, List.length_append, ih, String.length_utf8EncodeChar, byteLength_cons]

/-! ## Bytes as characters -/

theorem toNat_ofUInt8 (b : UInt8) : (Char.ofUInt8 b).toNat = b.toNat := rfl

theorem ofUInt8_injective : Function.Injective Char.ofUInt8 := by
  intro a b h
  rw [← UInt8.toNat_inj, ← toNat_ofUInt8, h, toNat_ofUInt8]

theorem utf8EncodeChar_ascii {c : Char} (h : c.toNat < 128) :
    String.utf8EncodeChar c = [UInt8.ofNat c.toNat] := by
  have hle : c.val.toNat ≤ 0x7f := Nat.le_of_lt_succ h
  rw [String.utf8EncodeChar, if_pos hle]
  rfl

theorem ofUInt8_ofNat {c : Char} (h : c.toNat < 128) : Char.ofUInt8 (UInt8.ofNat c.toNat) = c := by
  rw [← Char.toNat_inj, toNat_ofUInt8, UInt8.toNat_ofNat']
  exact Nat.mod_eq_of_lt (Nat.lt_trans h (by decide))

theorem map_encode_ascii {cs : List Char} (h : ∀ c ∈ cs, c.toNat < 128) :
    (encode cs).map Char.ofUInt8 = cs := by
  induction cs with
  | nil => rfl
  | cons c cs ih =>
      have hc : c.toNat < 128 := h c List.mem_cons_self
      rw [encode_cons, utf8EncodeChar_ascii hc, List.map_append, List.map_singleton,
        ofUInt8_ofNat hc, ih fun d hd => h d (List.mem_cons_of_mem c hd)]
      rfl

theorem utf8Size_ascii {c : Char} (h : c.toNat < 128) : c.utf8Size = 1 := by
  rw [← String.length_utf8EncodeChar, utf8EncodeChar_ascii h]
  rfl

theorem byteLength_ascii {cs : List Char} (h : ∀ c ∈ cs, c.toNat < 128) :
    byteLength cs = cs.length := by
  rw [← length_encode, ← List.length_map, map_encode_ascii h]

theorem le_toNat_lead {n k m : Nat} (hk : 0 < k) (hm : 128 ≤ m) (h : m + k ≤ 256) :
    128 ≤ (UInt8.ofNat (n % k + m)).toNat := by
  have hlt := Nat.mod_lt n hk
  rw [UInt8.toNat_ofNat', Nat.mod_eq_of_lt (by omega)]
  omega

/-- The first byte of a character. -/
theorem exists_lead (c : Char) : ∃ b bs, String.utf8EncodeChar c = b :: bs ∧
    (Char.ofUInt8 b = c ∨ 128 ≤ c.toNat ∧ 128 ≤ (Char.ofUInt8 b).toNat) := by
  by_cases h : c.toNat < 128
  · exact ⟨_, [], utf8EncodeChar_ascii h, .inl (ofUInt8_ofNat h)⟩
  · have hc : ¬ c.val.toNat ≤ 0x7f := fun hle => h (Nat.lt_succ_of_le hle)
    rw [String.utf8EncodeChar, if_neg hc]
    split
    · exact ⟨_, _, rfl,
        .inr ⟨Nat.le_of_not_lt h, le_toNat_lead (by decide) (by decide) (by decide)⟩⟩
    · split
      · exact ⟨_, _, rfl,
          .inr ⟨Nat.le_of_not_lt h, le_toNat_lead (by decide) (by decide) (by decide)⟩⟩
      · exact ⟨_, _, rfl,
          .inr ⟨Nat.le_of_not_lt h, le_toNat_lead (by decide) (by decide) (by decide)⟩⟩

/-- A test that only characters below 128 pass looks at the first byte alone. -/
theorem apply_lead {p : Char → Bool} (hp : ∀ d, p d = true → d.toNat < 128) (c : Char)
    (cs : List Char) : ∃ b bs, encode (c :: cs) = b :: bs ∧ p (Char.ofUInt8 b) = p c := by
  obtain ⟨b, bs, hb, h⟩ := exists_lead c
  refine ⟨b, bs ++ encode cs, by rw [encode_cons, hb, List.cons_append], ?_⟩
  rcases h with h | ⟨hc, hlead⟩
  · rw [h]
  · have hfalse : ∀ d : Char, 128 ≤ d.toNat → p d = false := by
      intro d hd
      rw [Bool.eq_false_iff]
      intro hpd
      exact absurd (hp d hpd) (Nat.not_lt_of_le hd)
    rw [hfalse c hc, hfalse _ hlead]

end FlatScript.Text
