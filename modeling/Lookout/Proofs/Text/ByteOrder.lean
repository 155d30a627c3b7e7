/-
Lookout.Proofs.Text.ByteOrder — texts stand in the same order by code points and
by their UTF-8 bytes.

The bytes of a smaller character stay the smaller ones whatever follows them
(`utf8EncodeChar_append_lt`): either the first bytes, which tell how many there
are, differ already, or the bytes are the digits of the code points to the base
64. So no text overtakes another when both are encoded (`bytes_lt_bytes_iff`).
-/
import Mathlib.Data.List.Sort

namespace Lookout

namespace Text

/-- The UTF-8 bytes of a text. -/
def bytes (text : List Char) : List UInt8 := (String.ofList text).toUTF8.data.toList

theorem bytes_eq_flatMap (text : List Char) : bytes text = text.flatMap String.utf8EncodeChar := by
  rw [bytes, String.toUTF8_eq_toByteArray, String.toByteArray_ofList, List.utf8Encode,
    List.toList_data_toByteArray]

@[simp] theorem bytes_nil : bytes [] = [] := by simp [bytes_eq_flatMap]

@[simp] theorem bytes_cons (c : Char) (text : List Char) :
    bytes (c :: text) = String.utf8EncodeChar c ++ bytes text := by
  simp [bytes_eq_flatMap]

/-! ## One character -/

theorem byte_lt_byte_iff {m n : Nat} (hm : m < 256) (hn : n < 256) :
    UInt8.ofNat m < UInt8.ofNat n ↔ m < n := by
  rw [UInt8.lt_iff_toNat_lt, UInt8.toNat_ofNat_of_lt' hm, UInt8.toNat_ofNat_of_lt' hn]

theorem byte_inj {m n : Nat} (hm : m < 256) (hn : n < 256) :
    UInt8.ofNat m = UInt8.ofNat n ↔ m = n := by
  rw [← UInt8.toNat_inj, UInt8.toNat_ofNat_of_lt' hm, UInt8.toNat_ofNat_of_lt' hn]

theorem lt_iff_lt_digits (m n : Nat) :
    m < n ↔ m / 64 < n / 64 ∨ m / 64 = n / 64 ∧ m % 64 < n % 64 := by
  omega

theorem utf8EncodeChar_append_lt {c d : Char} (h : c < d) (rest rest' : List UInt8) :
    String.utf8EncodeChar c ++ rest < String.utf8EncodeChar d ++ rest' := by
  have hlt : c.val.toNat < d.val.toNat := h
  have hmax : d.val.toNat < 1114112 := by
    rcases d.valid with hd | hd
    · exact Nat.lt_trans hd (by decide)
    · exact hd.2
  have hdigits := hlt
  rw [lt_iff_lt_digits, lt_iff_lt_digits (_ / 64), lt_iff_lt_digits (_ / 64 / 64)] at hdigits
  simp only [Nat.div_div_eq_div_mul, Nat.reduceMul] at hdigits
  -- One case for each pair of lengths.
  simp only [String.utf8EncodeChar]
  split_ifs <;>
    simp (disch := omega) only [List.cons_append, List.nil_append, List.cons_lt_cons_iff,
      byte_lt_byte_iff, byte_inj, Nat.mod_eq_of_lt] <;>
    omega

/-! ## Texts -/

theorem bytes_lt_bytes {text other : List Char} (h : text < other) : bytes text < bytes other := by
  induction h with
  | nil =>
    obtain ⟨byte, rest, hbytes⟩ := List.exists_cons_of_ne_nil String.utf8EncodeChar_ne_nil
    rw [bytes_nil, bytes_cons, hbytes]
    exact List.nil_lt_cons _ _
  | rel h =>
    rw [bytes_cons, bytes_cons]
    exact utf8EncodeChar_append_lt h _ _
  | cons _ ih =>
    rw [bytes_cons, bytes_cons]
    exact List.append_left_lt ih

theorem bytes_lt_bytes_iff {text other : List Char} : bytes text < bytes other ↔ text < other := by
  refine ⟨fun h => ?_, bytes_lt_bytes⟩
  by_contra hle
  rcases List.le_iff_lt_or_eq.mp hle with hlt | rfl
  · exact List.lt_asymm h (bytes_lt_bytes hlt)
  · exact List.lt_irrefl _ h

end Text

end Lookout
