import Mathlib.Data.List.Flatten
import Mathlib.Data.Nat.Notation
import Mathlib.Tactic.SplitIfs

/-!
# Text as bytes

The UTF-8 bytes of a sequence of characters, and which bytes they are: a character below 128 is the
one byte that is its number, and the bytes of any other character lie from `0x80` up to `0xf7`. So a
byte below 128 stands for its own character wherever it is found, and `0xff` stands nowhere in text.

`encode_prefix_iff` is why a test on bytes and a test on characters agree on what begins with what.
-/

namespace Utf8

/-- The bytes of a sequence of characters. -/
def encode (cs : List Char) : List UInt8 := cs.flatMap String.utf8EncodeChar

@[simp] theorem encode_nil : encode [] = [] := rfl

@[simp] theorem encode_cons (c : Char) (cs : List Char) :
    encode (c :: cs) = String.utf8EncodeChar c ++ encode cs := rfl

theorem encode_append (cs ds : List Char) : encode (cs ++ ds) = encode cs ++ encode ds :=
  List.flatMap_append

theorem toList_toUTF8 (text : String) : text.toUTF8.data.toList = encode text.toList := by
  show text.toByteArray.data.toList = _
  rw [← String.utf8Encode_toList, List.utf8Encode, List.toList_data_toByteArray]
  rfl

/-! ### The bytes of a character -/

theorem encodeChar_of_ascii {c : Char} (h : c.val.toNat ≤ 0x7f) :
    String.utf8EncodeChar c = [UInt8.ofNat c.val.toNat] := by
  rw [String.utf8EncodeChar, if_pos h]

/-- A byte of a character from 128 on is neither below 128 nor above `0xf7`. -/
theorem mem_encodeChar {c : Char} (h : ¬ c.val.toNat ≤ 0x7f) {b : UInt8}
    (hb : b ∈ String.utf8EncodeChar c) : 0x80 ≤ b.toNat ∧ b.toNat < 0xf8 := by
  -- Every one of these bytes is a remainder with the mark of its place added to it.
  have hbyte {n : ℕ} (hlow : 0x80 ≤ n) (hhigh : n < 0xf8) (heq : b = UInt8.ofNat n) :
      0x80 ≤ b.toNat ∧ b.toNat < 0xf8 := by
    rw [heq, UInt8.toNat_ofNat_of_lt' (show n < 2 ^ 8 by omega)]
    exact ⟨hlow, hhigh⟩
  rw [String.utf8EncodeChar, if_neg h] at hb
  split_ifs at hb <;> simp only [List.mem_cons, List.not_mem_nil, or_false] at hb
  · rcases hb with hb | hb
    · exact hbyte (by omega) (by omega) hb
    · exact hbyte (by omega) (by omega) hb
  · rcases hb with hb | hb | hb
    · exact hbyte (by omega) (by omega) hb
    · exact hbyte (by omega) (by omega) hb
    · exact hbyte (by omega) (by omega) hb
  · rcases hb with hb | hb | hb | hb
    · exact hbyte (by omega) (by omega) hb
    · exact hbyte (by omega) (by omega) hb
    · exact hbyte (by omega) (by omega) hb
    · exact hbyte (by omega) (by omega) hb

/-- **No text holds a byte above `0xf7`.** -/
theorem lt_of_mem_encode {cs : List Char} {b : UInt8} (hb : b ∈ encode cs) : b.toNat < 0xf8 := by
  obtain ⟨c, _, hb⟩ := List.mem_flatMap.1 hb
  by_cases h : c.val.toNat ≤ 0x7f
  · rw [encodeChar_of_ascii h, List.mem_singleton] at hb
    rw [hb, UInt8.toNat_ofNat_of_lt' (show c.val.toNat < 2 ^ 8 by omega)]
    omega
  · exact (mem_encodeChar h hb).2

/-! ### What begins with what -/

theorem utf8Encode_eq (cs : List Char) : cs.utf8Encode = (encode cs).toByteArray := rfl

/-- **Bytes begin with bytes just where the characters do.** -/
theorem encode_prefix_iff {cs ds : List Char} : encode cs <+: encode ds ↔ cs <+: ds := by
  constructor
  · rintro ⟨rest, hrest⟩
    have hbytes : cs.utf8Encode ++ rest.toByteArray = ds.utf8Encode := by
      rw [utf8Encode_eq, utf8Encode_eq, ← hrest, List.toByteArray_append]
    exact List.isPrefix_of_utf8Encode_append_eq_utf8Encode rest.toByteArray hbytes
  · rintro ⟨rest, rfl⟩
    rw [encode_append]
    exact List.prefix_append _ _

theorem encode_injective : Function.Injective encode := by
  intro cs ds h
  have hcs : cs <+: ds := encode_prefix_iff.1 (h ▸ List.prefix_rfl)
  have hds : ds <+: cs := encode_prefix_iff.1 (h ▸ List.prefix_rfl)
  exact hcs.eq_of_length_le hds.length_le

end Utf8
